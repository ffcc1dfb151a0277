import Pliego.Lib.JsonValue
import Pliego.Log.CanonicalNumber

/-!
The parsing of JSON into canonical bytes. The reader of `serde_json` is a parameter; its answers are checked
for repeated and reserved keys and for the shape of the document before the canonical text is written.
-/

namespace Pliego

open Bytes Decimal JsonText Sorting

def maxJsonDepth : Nat := 64

def maxJsonNodes : Nat := 65536

def serdeArbitraryPrecisionNumberKey : String := "$serde_json::private::Number"

-- What `serde_json` shows a visitor with the error that stops it, the value and the string that it makes of
-- bytes, and the text it writes for a string.
structure SerdeJson where
  visit : List UInt8 → Value × Option String
  fromSlice : List UInt8 → Except String Value
  text : List UInt8 → Except String String
  quote : String → List UInt8

namespace CanonicalJson

def isAsciiWhitespace (byte : UInt8) : Bool := byte == 32 || byte == 9 || byte == 10 || byte == 12 || byte == 13

-- A string in front of a colon is a key.
def checkKey (serde : SerdeJson) (literal after : List UInt8) : Except CanonicalJsonError Unit :=
  match after.dropWhile isAsciiWhitespace with
  | 58 :: _ =>
    match serde.text literal with
    | .error reason => .error (.invalid reason)
    | .ok key =>
      if key = serdeArbitraryPrecisionNumberKey then
        .error (.invalid ("object key `" ++ serdeArbitraryPrecisionNumberKey ++ "` is reserved"))
      else
        .ok ()
  | _ => .ok ()

-- Where the scan of `reject_reserved_number_keys` stands: outside of strings, or within one with what it has seen
-- of it, the last byte first, and perhaps behind a backslash.
inductive ScanState where
  | outside
  | inside (body : List UInt8)
  | escaped (body : List UInt8)

def scanKeys (serde : SerdeJson) (state : ScanState) (bytes : List UInt8) : Except CanonicalJsonError Unit :=
  match bytes with
  | [] => .ok ()
  | byte :: rest =>
    match state with
    | .outside => scanKeys serde (if byte = 34 then .inside [] else .outside) rest
    | .inside body =>
      if byte = 34 then
        (checkKey serde (34 :: (body.reverse ++ [34])) rest).bind fun _ => scanKeys serde .outside rest
      else if byte = 92 then
        scanKeys serde (.escaped (byte :: body)) rest
      else
        scanKeys serde (.inside (byte :: body)) rest
    | .escaped body => scanKeys serde (.inside (byte :: body)) rest

def rejectReservedNumberKeys (serde : SerdeJson) (raw : List UInt8) : Except CanonicalJsonError Unit :=
  scanKeys serde .outside raw

-- The first key that is seen twice in one object.
mutual

def duplicate (value : Value) : Option String :=
  match value with
  | .array items => itemsDuplicate items
  | .object members => membersDuplicate [] members
  | _ => none

def itemsDuplicate (items : List Value) : Option String :=
  match items with
  | [] => none
  | item :: rest => (duplicate item).or (itemsDuplicate rest)

def membersDuplicate (seen : List String) (members : List (String × Value)) : Option String :=
  match members with
  | [] => none
  | (key, value) :: rest =>
    if key ∈ seen then some key else (duplicate value).or (membersDuplicate (key :: seen) rest)

end

-- The key is taken out of the message again, where a backquote ends it.
def noDuplicates (serde : SerdeJson) (raw : List UInt8) : Except CanonicalJsonError Unit :=
  match duplicate (serde.visit raw).1 with
  | some key => .error (.duplicateKey (String.ofList (key.toList.takeWhile (fun c => c.toNat ≠ 96))))
  | none =>
    match (serde.visit raw).2 with
    | some reason => .error (.invalid reason)
    | none => .ok ()

-- The loop over the stack, whose top comes first, with the number of nodes that are still admitted.
def shapeLoop (remaining : Nat) (stack : List (Value × Nat)) : Except CanonicalJsonError Unit :=
  match stack with
  | [] => .ok ()
  | (value, depth) :: stack =>
    match remaining with
    | 0 => .error (.tooManyNodes (maxJsonNodes + 1) maxJsonNodes)
    | remaining + 1 =>
      if maxJsonDepth < depth then
        .error (.tooDeep depth maxJsonDepth)
      else
        shapeLoop remaining ((value.children.map (fun child => (child, depth + 1))).reverse ++ stack)

def validateJsonShape (root : Value) : Except CanonicalJsonError Unit :=
  shapeLoop maxJsonNodes [(root, 1)]

mutual

def writeCanonical (serde : SerdeJson) (value : Value) : Except CanonicalJsonError (List UInt8) :=
  match value with
  | .null => .ok (utf8 "null")
  | .bool true => .ok (utf8 "true")
  | .bool false => .ok (utf8 "false")
  | .number lexeme => (canonicalNumber lexeme.toList).map (fun text => utf8 (String.ofList text))
  | .text value => .ok (serde.quote value)
  | .array items => ((writeCanonicalItems serde items).mapM id).map fun parts =>
      [91] ++ [44].intercalate parts ++ [93]
  | .object members =>
    -- the entries in the order of their keys
    ((sortBy Prod.fst (writeCanonicalMembers serde members)).mapM
      (fun (entry : String × Except CanonicalJsonError (List UInt8)) =>
        entry.2.map (serde.quote entry.1 ++ [58] ++ ·))).map fun parts => [123] ++ [44].intercalate parts ++ [125]

def writeCanonicalItems (serde : SerdeJson) (items : List Value)
    : List (Except CanonicalJsonError (List UInt8)) :=
  match items with
  | [] => []
  | item :: rest => writeCanonical serde item :: writeCanonicalItems serde rest

def writeCanonicalMembers (serde : SerdeJson) (members : List (String × Value))
    : List (String × Except CanonicalJsonError (List UInt8)) :=
  match members with
  | [] => []
  | (key, value) :: rest => (key, writeCanonical serde value) :: writeCanonicalMembers serde rest

end

def parse (serde : SerdeJson) (raw : List UInt8) : Except CanonicalJsonError CanonicalJson :=
  if maxJsonBytes < raw.length then
    .error (.tooLarge raw.length maxJsonBytes)
  else do
    rejectReservedNumberKeys serde raw
    noDuplicates serde raw
    let value ← (serde.fromSlice raw).mapError .invalid
    validateJsonShape value
    let bytes ← writeCanonical serde value
    if h : bytes.length ≤ maxJsonBytes then .ok ⟨bytes, h⟩ else .error (.tooLarge bytes.length maxJsonBytes)

section Shape

variable {value : Value} {stack : List (Value × Nat)} {remaining : Nat}

theorem shapeLoop_ok
    : shapeLoop remaining stack = .ok () ↔ (stack.map (fun entry => entry.1.values.length)).sum ≤ remaining
        ∧ ∀ entry ∈ stack, entry.1.levels + entry.2 ≤ maxJsonDepth + 1 := by
  induction remaining generalizing stack with
  | zero =>
    cases stack with
    | nil => exact iff_of_true rfl ⟨Nat.le_refl _, fun _ hmem => absurd hmem List.not_mem_nil⟩
    | cons entry rest =>
      obtain ⟨value, depth⟩ := entry
      apply iff_of_false
      . intro h
        cases h
      . intro h
        have hcount := h.1
        rw [List.map_cons, List.sum_cons, Value.values_eq, List.length_cons] at hcount
        omega
  | succ remaining ih =>
    cases stack with
    | nil => exact iff_of_true rfl ⟨Nat.zero_le _, fun _ hmem => absurd hmem List.not_mem_nil⟩
    | cons entry rest =>
      obtain ⟨value, depth⟩ := entry
      have hnodes : (((value.children.map (fun child => (child, depth + 1))).reverse ++ rest).map
            (fun entry => entry.1.values.length)).sum + 1
          = (((value, depth) :: rest).map (fun entry => entry.1.values.length)).sum := by
        rw [List.map_append, List.sum_append, List.map_reverse, List.sum_reverse, List.map_map, List.map_cons,
          List.sum_cons, Value.values_eq, List.length_cons, List.length_flatMap, Function.comp_def]
        dsimp only
        omega
      rw [shapeLoop]
      by_cases hdeep : maxJsonDepth < depth
      . rw [if_pos hdeep]
        apply iff_of_false
        . intro h
          cases h
        . intro h
          exact hdeep.not_ge (Value.levels_add_le.mp (h.2 _ List.mem_cons_self)).1
      . rw [if_neg hdeep, ih, ← hnodes, Nat.add_le_add_iff_right, List.forall_mem_cons, Value.levels_add_le,
          and_iff_right (not_lt.mp hdeep), List.forall_mem_append]
        simp only [List.mem_reverse, List.forall_mem_map]

theorem validateJsonShape_ok
    : validateJsonShape value = .ok () ↔ value.values.length ≤ maxJsonNodes ∧ value.levels ≤ maxJsonDepth := by
  unfold validateJsonShape
  rw [shapeLoop_ok, List.map_singleton, List.sum_singleton, List.forall_mem_singleton, Nat.add_le_add_iff_right]

end Shape

section Duplicates

variable {value : Value} {members : List (String × Value)}

theorem membersDuplicate_eq_none {seen : List String}
    : membersDuplicate seen members = none ↔ (∀ member ∈ members, member.1 ∉ seen)
        ∧ (members.map Prod.fst).Nodup ∧ ∀ member ∈ members, duplicate member.2 = none := by
  induction members generalizing seen with
  | nil => simp [membersDuplicate]
  | cons member rest ih =>
    obtain ⟨key, value⟩ := member
    rw [membersDuplicate]
    split
    . next hseen =>
      apply iff_of_false
      . intro h
        cases h
      . exact fun h => h.1 _ List.mem_cons_self hseen
    . next hseen =>
      rw [Option.or_eq_none_iff, ih, List.forall_mem_cons, List.forall_mem_cons, List.map_cons, List.nodup_cons]
      simp only [List.mem_cons, not_or, List.mem_map, not_exists, not_and, forall_and]
      constructor
      . intro h
        obtain ⟨hvalue, ⟨hne, hrest⟩, hnodup, hothers⟩ := h
        exact ⟨⟨hseen, hrest⟩, ⟨hne, hnodup⟩, hvalue, hothers⟩
      . intro h
        obtain ⟨⟨-, hrest⟩, ⟨hne, hnodup⟩, hvalue, hothers⟩ := h
        exact ⟨hvalue, ⟨hne, hrest⟩, hnodup, hothers⟩

theorem itemsDuplicate_eq_none {items : List Value}
    : itemsDuplicate items = none ↔ ∀ item ∈ items, duplicate item = none := by
  induction items with
  | nil => exact iff_of_true rfl (fun _ hmem => absurd hmem List.not_mem_nil)
  | cons item rest ih => rw [itemsDuplicate, Option.or_eq_none_iff, ih, List.forall_mem_cons]

theorem duplicate_eq_none : duplicate value = none ↔ value.Every UniqueNames := by
  induction value using Value.induct with
  | h value ih =>
    rw [Value.every_iff]
    cases value with
    | array items =>
      rw [duplicate, itemsDuplicate_eq_none]
      constructor
      . intro h
        refine ⟨?_, fun child hchild => (ih child hchild).mp (h child hchild)⟩
        intro members hobject
        cases hobject
      . exact fun h child hchild => (ih child hchild).mpr (h.2 child hchild)
    | object members =>
      have hchildren : (∀ member ∈ members, duplicate member.2 = none)
          ↔ ∀ child ∈ (Value.object members).children, child.Every UniqueNames := by
        unfold Value.children
        rw [List.forall_mem_map]
        constructor
        . exact fun h member hmember => (ih member.2 (List.mem_map_of_mem hmember)).mp (h member hmember)
        . exact fun h member hmember => (ih member.2 (List.mem_map_of_mem hmember)).mpr (h member hmember)
      have hunique : UniqueNames (.object members) ↔ (members.map Prod.fst).Nodup := by
        constructor
        . exact fun h => h members rfl
        . intro h members' hsame
          cases hsame
          exact h
      rw [duplicate, membersDuplicate_eq_none, hchildren, hunique]
      constructor
      . exact fun h => h.2
      . exact fun h => ⟨fun _ _ => List.not_mem_nil, h⟩
    | _ =>
      apply iff_of_true rfl
      refine ⟨?_, fun child hchild => absurd hchild List.not_mem_nil⟩
      intro members hobject
      cases hobject

end Duplicates

section Writing

variable {serde : SerdeJson} {value : Value}

def canonicalLexeme (lexeme : String) : String :=
  match canonicalNumber lexeme.toList with
  | .ok text => String.ofList text
  | .error _ => lexeme

theorem canonicalLexeme_spec {lexeme : String} (h : IsNumber lexeme.toList)
    : canonicalNumber lexeme.toList = .ok (canonicalLexeme lexeme).toList
      ∧ IsNumber (canonicalLexeme lexeme).toList
      ∧ numberValue (canonicalLexeme lexeme).toList = numberValue lexeme.toList := by
  obtain ⟨text, hok, hnumber, hvalue⟩ := canonicalNumber_ok h
  unfold canonicalLexeme
  rw [hok]
  dsimp only
  rw [String.toList_ofList]
  exact ⟨rfl, hnumber, hvalue⟩

theorem canonicalLexeme_eq {lexeme lexeme' : String} (h : IsNumber lexeme.toList) (h' : IsNumber lexeme'.toList)
    (hvalue : numberValue lexeme.toList = numberValue lexeme'.toList)
    : canonicalLexeme lexeme = canonicalLexeme lexeme' := by
  have hsame := canonicalNumber_eq_of_value h h' hvalue
  rw [(canonicalLexeme_spec h).1, (canonicalLexeme_spec h').1, Except.ok.injEq] at hsame
  exact String.toList_inj.mp hsame

theorem mapM_ok {α β ε : Type} {f : α → Except ε β} {g : α → β} {xs : List α} (h : ∀ x ∈ xs, f x = .ok (g x))
    : xs.mapM f = .ok (xs.map g) := by
  induction xs with
  | nil => rfl
  | cons x rest ih =>
    rw [List.mapM_cons, h x List.mem_cons_self, ih (fun y hy => h y (List.mem_cons_of_mem _ hy))]
    rfl

theorem writeCanonicalItems_eq {items : List Value}
    : writeCanonicalItems serde items = items.map (writeCanonical serde) := by
  induction items with
  | nil => rfl
  | cons item rest ih => rw [writeCanonicalItems, ih, List.map_cons]

theorem writeCanonicalMembers_eq {members : List (String × Value)}
    : writeCanonicalMembers serde members
      = members.map (fun member => (member.1, writeCanonical serde member.2)) := by
  induction members with
  | nil => rfl
  | cons member rest ih => rw [writeCanonicalMembers, ih, List.map_cons]

theorem writeCanonical_ok (h : value.Every ProperNumber)
    : writeCanonical serde value = .ok (write serde.quote (value.normal canonicalLexeme)) := by
  induction value using Value.induct with
  | h value ih =>
    rw [Value.every_iff] at h
    cases value with
    | null => rfl
    | bool value => cases value <;> rfl
    | text value => rfl
    | number lexeme =>
      rw [writeCanonical, (canonicalLexeme_spec (h.1 lexeme rfl)).1, Value.normal, write]
      unfold Except.map
      dsimp only
      rw [String.ofList_toList]
    | array items =>
      have hitems : ∀ item ∈ items, (id ∘ writeCanonical serde) item
          = .ok (write serde.quote (item.normal canonicalLexeme)) :=
        fun item hitem => ih item hitem (h.2 item hitem)
      rw [writeCanonical, writeCanonicalItems_eq, Value.normal, itemsNormal_eq, write, writeItems_eq, List.mapM_map,
        mapM_ok hitems, List.map_map]
      rfl
    | object members =>
      have hmembers : ∀ member ∈ sortBy Prod.fst members,
          Except.map (serde.quote member.1 ++ [58] ++ ·) (writeCanonical serde member.2)
            = .ok (serde.quote member.1 ++ [58] ++ write serde.quote (member.2.normal canonicalLexeme)) := by
        intro member hmember
        have hchild : member.2 ∈ (Value.object members).children :=
          List.mem_map_of_mem (mem_sortBy.mp hmember)
        rw [ih member.2 hchild (h.2 member.2 hchild)]
        rfl
      rw [writeCanonical, writeCanonicalMembers_eq, Value.normal, membersNormal_eq, write, writeMembers_eq,
        sortBy_map, sortBy_map, List.mapM_map, List.map_map]
      unfold Function.comp
      dsimp only
      rw [mapM_ok hmembers]
      rfl

end Writing

end CanonicalJson

end Pliego
