import Pliego.Fold.Projection
import Pliego.Lib.Utf8
import Pliego.Log.CanonicalValue

/-!
The canonical JSON of a state: what its serializer wrote is bounded in its shape, read back, put in order and
written again. A number that is no `u64` and no `i64` comes to the visitor as a map with one entry.
-/

namespace Pliego

open Bytes Decimal JsonText Sorting

namespace Fold

def maxCanonicalStateDepth : Nat := 64

def maxCanonicalStateNodes : Nat := 262144

inductive CodecOperation where
  | encode
  | decode

def CodecOperation.failure (operation : CodecOperation) (message : String) : CodecError :=
  match operation with
  | .encode => .encode message
  | .decode => .decode message

inductive ShapeViolation where
  | depth (actual : Nat)
  | nodes (actual : Nat)

-- The texts that parse as a `u64` or, with a sign, as an `i64`.
def fitsInteger (lexeme : String) : Bool :=
  let (negative, digits) := splitSign lexeme.toList
  digits.all Char.isDigit && decide (digitsValue digits < if negative then 2 ^ 63 + 1 else 2 ^ 64)

-- The values as `serde_json` with `arbitrary_precision` presents them.
mutual

def presented (value : Value) : Value :=
  match value with
  | .null => .null
  | .bool value => .bool value
  | .number lexeme =>
    if fitsInteger lexeme then .number lexeme else .object [(serdeArbitraryPrecisionNumberKey, .text lexeme)]
  | .text value => .text value
  | .array items => .array (itemsPresented items)
  | .object members => .object (membersPresented members)

def itemsPresented (items : List Value) : List Value :=
  match items with
  | [] => []
  | item :: rest => presented item :: itemsPresented rest

def membersPresented (members : List (String × Value)) : List (String × Value) :=
  match members with
  | [] => []
  | (name, value) :: rest => (name, presented value) :: membersPresented rest

end

-- What the seed checks before it visits a value, with the nodes that were counted.
def admitNode (depth nodes : Nat) : Except ShapeViolation Nat :=
  if maxCanonicalStateDepth < depth then
    .error (.depth depth)
  else if maxCanonicalStateNodes < nodes + 1 then
    .error (.nodes (nodes + 1))
  else
    .ok (nodes + 1)

mutual

def deserialize (depth nodes : Nat) (value : Value) : Except ShapeViolation Nat :=
  admitNode depth nodes >>= fun nodes =>
    match value with
    | .array items => visitSeq (depth + 1) nodes items
    | .object members => visitMap (depth + 1) nodes members
    | _ => .ok nodes

def visitSeq (depth nodes : Nat) (items : List Value) : Except ShapeViolation Nat :=
  match items with
  | [] => .ok nodes
  | item :: rest => deserialize depth nodes item >>= fun nodes => visitSeq depth nodes rest

def visitMap (depth nodes : Nat) (members : List (String × Value)) : Except ShapeViolation Nat :=
  match members with
  | [] => .ok nodes
  | (_, value) :: rest => deserialize depth nodes value >>= fun nodes => visitMap depth nodes rest

end

def preflightJson (serde : SerdeJson) (bytes : List UInt8) (operation : CodecOperation) : Except CodecError Unit :=
  match deserialize 1 0 (presented (serde.visit bytes).1) with
  | .error (.depth actual) => .error (.tooDeep actual maxCanonicalStateDepth)
  | .error (.nodes actual) => .error (.tooManyNodes actual maxCanonicalStateNodes)
  | .ok _ =>
    match (serde.visit bytes).2 with
    | some message => .error (operation.failure message)
    | none => .ok ()

def jsonNumberIsFloat (number : String) : Bool :=
  number.toList.any (fun c => c == '.' || c == 'e' || c == 'E')

def jsonNumberIsZero (number : String) : Bool :=
  (splitOnce isExponentMark (splitSign number.toList).2).1.all (fun c => c == '0' || c == '.')

def positiveZero (number : String) : String :=
  if jsonNumberIsFloat number && jsonNumberIsZero number then "0.0" else number

def canonicalize (value : Value) : Value := value.normal positiveZero

-- The buffers a serializer hands to the writer, and the error it ends with.
structure Serialized where
  buffers : List (List UInt8)
  failure : Option String

-- The `BoundedWriter`, with the size that was attempted where it refuses a buffer.
def writeBounded (maximum : Nat) (bytes : List UInt8) (buffers : List (List UInt8)) : Except Nat (List UInt8) :=
  match buffers with
  | [] => .ok bytes
  | buffer :: rest =>
    if maximum < bytes.length + buffer.length then
      .error (bytes.length + buffer.length)
    else
      writeBounded maximum (bytes ++ buffer) rest

def serializeBounded (value : Serialized) (maxBytes : Nat) : Except CodecError (List UInt8) :=
  match writeBounded maxBytes [] value.buffers with
  | .error actual => .error (.tooLarge actual maxBytes)
  | .ok bytes =>
    match value.failure with
    | some message => .error (.encode message)
    | none => .ok bytes

-- The canonical value is written in one buffer.
def encodeCanonicalJsonBounded (serde : SerdeJson) (state : Serialized) (maxBytes : Nat)
    : Except CodecError (List UInt8) := do
  let source ← serializeBounded state maxBytes
  preflightJson serde source .encode
  let value ← (serde.fromSlice source).mapError .encode
  serializeBounded ⟨[write serde.quote (canonicalize value)], none⟩ maxBytes

-- The bounds on the tree itself.
def WithinShape (value : Value) : Prop :=
  value.levels ≤ maxCanonicalStateDepth ∧ value.values.length ≤ maxCanonicalStateNodes

section Visitor

variable {depth nodes n : Nat} {value : Value} {items : List Value}

theorem admitNode_ok
    : admitNode depth nodes = .ok n ↔ depth ≤ maxCanonicalStateDepth ∧ n ≤ maxCanonicalStateNodes ∧ n = nodes + 1 := by
  unfold admitNode
  split
  . next hdeep =>
    apply iff_of_false nofun
    omega
  . split
    . next hmany =>
      apply iff_of_false nofun
      omega
    . rw [Except.ok.injEq]
      omega

theorem visitMap_eq {members : List (String × Value)}
    : visitMap depth nodes members = visitSeq depth nodes (members.map Prod.snd) := by
  induction members generalizing nodes with
  | nil => rfl
  | cons member rest ih =>
    rw [visitMap, List.map_cons, visitSeq]
    congr 1
    funext nodes
    exact ih

theorem deserialize_eq
    : deserialize depth nodes value = (admitNode depth nodes >>= fun nodes => visitSeq (depth + 1) nodes value.children) := by
  cases value with
  | object members =>
    rw [deserialize]
    congr 1
    funext nodes
    exact visitMap_eq
  | _ => rw [deserialize]; rfl

theorem deserialize_ok
    : deserialize depth nodes value = .ok n ↔ n = nodes + value.values.length ∧ n ≤ maxCanonicalStateNodes
        ∧ value.levels + depth ≤ maxCanonicalStateDepth + 1 := by
  induction value using Value.induct generalizing depth nodes n with
  | h value ih =>
    have hseq : ∀ items : List Value, (∀ item ∈ items, item ∈ value.children) → ∀ depth nodes n,
        nodes ≤ maxCanonicalStateNodes →
        (visitSeq depth nodes items = .ok n ↔ n = nodes + (items.flatMap Value.values).length
          ∧ n ≤ maxCanonicalStateNodes ∧ ∀ item ∈ items, item.levels + depth ≤ maxCanonicalStateDepth + 1) := by
      intro items
      induction items with
      | nil =>
        intro _ depth nodes n hnodes
        rw [visitSeq, Except.ok.injEq, List.flatMap_nil, List.length_nil]
        constructor
        . rintro rfl
          exact ⟨rfl, hnodes, fun _ hmem => absurd hmem List.not_mem_nil⟩
        . exact fun h => h.1.symm
      | cons item rest ihrest =>
        intro hmem depth nodes n hnodes
        obtain ⟨hitem, hrest⟩ := List.forall_mem_cons.mp hmem
        rw [visitSeq, Except.bind_eq_ok, List.flatMap_cons, List.length_append, List.forall_mem_cons]
        constructor
        . intro h
          obtain ⟨after, hhead, htail⟩ := h
          rw [ih item hitem] at hhead
          rw [ihrest hrest depth after n hhead.2.1] at htail
          exact ⟨by omega, htail.2.1, hhead.2.2, htail.2.2⟩
        . intro h
          refine ⟨nodes + item.values.length, (ih item hitem).mpr ⟨rfl, by omega, h.2.2.1⟩, ?_⟩
          rw [ihrest hrest _ _ _ (by omega)]
          exact ⟨by omega, h.2.1, h.2.2.2⟩
    rw [deserialize_eq, Except.bind_eq_ok, Value.values_eq, List.length_cons, Value.levels_add_le]
    simp only [admitNode_ok]
    constructor
    . rintro ⟨_, ⟨hdepth, hentered, rfl⟩, hrest⟩
      rw [hseq _ (fun _ h => h) _ _ _ hentered] at hrest
      exact ⟨by omega, hrest.2.1, hdepth, hrest.2.2⟩
    . rintro ⟨hn, hmax, hdepth, hchildren⟩
      refine ⟨_, ⟨hdepth, by omega, rfl⟩, ?_⟩
      rw [hseq _ (fun _ h => h) _ _ _ (by omega)]
      exact ⟨by omega, hmax, hchildren⟩

theorem deserialize_within : (∃ n, deserialize 1 0 value = .ok n) ↔ WithinShape value := by
  unfold WithinShape
  simp only [deserialize_ok, exists_eq_left, Nat.zero_add, Nat.add_le_add_iff_right]
  exact And.comm

end Visitor

section Presented

variable {value : Value} {items : List Value}

theorem itemsPresented_eq : itemsPresented items = items.map presented := by
  induction items with
  | nil => rfl
  | cons item rest ih => rw [itemsPresented, ih, List.map_cons]

theorem membersPresented_eq {members : List (String × Value)}
    : (membersPresented members).map Prod.snd = (members.map Prod.snd).map presented := by
  induction members with
  | nil => rfl
  | cons member rest ih => rw [membersPresented, List.map_cons, ih, List.map_cons, List.map_cons]

theorem children_presented : ∃ extra, (presented value).children = value.children.map presented ++ extra := by
  cases value with
  | array items => exact ⟨[], by rw [presented, Value.children, itemsPresented_eq, List.append_nil]; rfl⟩
  | object members => exact ⟨[], by rw [presented, Value.children, membersPresented_eq, List.append_nil]; rfl⟩
  | _ => exact ⟨_, rfl⟩

theorem levels_le_presented : value.levels ≤ (presented value).levels := by
  have hle : ∀ bound, (presented value).levels ≤ bound → value.levels ≤ bound := by
    induction value using Value.induct with
    | h value ih =>
      intro bound h
      cases bound with
      | zero => exact absurd h (Nat.not_le_of_lt (Value.levels_pos _))
      | succ bound =>
        rw [Value.levels_le] at h ⊢
        obtain ⟨extra, hchildren⟩ := @children_presented value
        intro child hchild
        apply ih child hchild
        apply h
        rw [hchildren]
        exact List.mem_append_left _ (List.mem_map_of_mem hchild)
  exact hle _ (Nat.le_refl _)

theorem length_values_le_presented : value.values.length ≤ (presented value).values.length := by
  induction value using Value.induct with
  | h value ih =>
    obtain ⟨extra, hchildren⟩ := @children_presented value
    rw [Value.values_eq, Value.values_eq (presented value), hchildren, List.length_cons, List.length_cons,
      List.flatMap_append, List.length_append, List.length_flatMap, List.length_flatMap, List.map_map]
    have hsum := List.sum_le_sum ih
    simp only [Function.comp_def]
    omega

theorem WithinShape.of_presented (h : WithinShape (presented value)) : WithinShape value :=
  ⟨levels_le_presented.trans h.1, length_values_le_presented.trans h.2⟩

end Presented

section Texts

variable {quote : String → List UInt8} {f : String → String} {value : Value}

theorem length_write_sum (children : List (List UInt8))
    : ([44].intercalate children).length = (children.map (fun part => part.length + 1)).sum - 1 := by
  cases children with
  | nil => rfl
  | cons part rest =>
    have hlength := @length_intercalate _ [(44 : UInt8)] _ (List.cons_ne_nil part rest)
    rw [List.length_singleton] at hlength
    omega

theorem length_write_normal (hf : ∀ lexeme : String, IsNumber lexeme.toList → (utf8 (f lexeme)).length ≤ (utf8 lexeme).length)
    (h : value.Every ProperNumber)
    : (write quote (value.normal f)).length ≤ (write quote value).length := by
  induction value using Value.induct with
  | h value ih =>
    rw [Value.every_iff] at h
    have hchildren := fun child hchild => ih child hchild (h.2 child hchild)
    cases value with
    | number lexeme => exact hf lexeme (h.1 lexeme rfl)
    | array items =>
      rw [Value.normal, itemsNormal_eq, write, write, writeItems_eq, writeItems_eq]
      simp only [List.length_append, length_write_sum, List.map_map, Function.comp_def]
      have hparts : ∀ item ∈ items, (write quote (item.normal f)).length + 1 ≤ (write quote item).length + 1 :=
        fun item hitem => Nat.add_le_add_right (hchildren item hitem) 1
      have hsum := List.sum_le_sum hparts
      omega
    | object members =>
      rw [Value.normal, membersNormal_eq, write, write, writeMembers_eq, writeMembers_eq]
      simp only [List.length_append, length_write_sum]
      rw [((sortBy_perm.map _).map _).sum_eq]
      simp only [List.map_map, Function.comp_def, List.length_append]
      have hsum : ∀ member ∈ members, (quote member.1).length + [(58 : UInt8)].length
            + (write quote (member.2.normal f)).length + 1
          ≤ (quote member.1).length + [(58 : UInt8)].length + (write quote member.2).length + 1 :=
        fun member hmember => Nat.add_le_add_right (Nat.add_le_add_left (hchildren member.2 (List.mem_map_of_mem hmember)) _) 1
      have hsum := List.sum_le_sum hsum
      omega
    | _ => exact Nat.le_refl _

theorem float_length {lexeme : String} (h : IsNumber lexeme.toList) (hfloat : jsonNumberIsFloat lexeme = true)
    : 3 ≤ lexeme.toList.length := by
  unfold jsonNumberIsFloat at hfloat
  revert h hfloat
  generalize lexeme.toList = chars
  intro h hfloat
  obtain ⟨hinteger, hfraction, hexponent⟩ := h
  dsimp only [Numeral.read] at hinteger hfraction hexponent
  have hunsigned : (splitSign chars).2.length ≤ chars.length
      ∧ (splitSign chars).2.any (fun c => c == '.' || c == 'e' || c == 'E') = true := by
    unfold splitSign
    split
    . exact ⟨Nat.le_succ _, hfloat⟩
    . exact ⟨Nat.le_refl _, hfloat⟩
  generalize (splitSign chars).2 = unsigned at *
  have hmantissa : (splitOnce isExponentMark unsigned).1 ≠ [] := by
    intro hnil
    rw [hnil] at hinteger
    exact hinteger.ne_nil rfl
  cases @splitOnce_eq isExponentMark unsigned with
  | inl hplain =>
    cases @splitOnce_eq (· == '.') (splitOnce isExponentMark unsigned).1 with
    | inl hwhole =>
      have hdigits := hinteger.digits
      rw [← hwhole, ← hplain, List.all_eq_true] at hdigits
      obtain ⟨c, hc, hmark⟩ := List.any_eq_true.mp hunsigned.2
      simp only [Bool.or_eq_true, beq_iff_eq] at hmark
      rcases hmark with (rfl | rfl) | rfl <;> exact absurd (hdigits _ hc) (by decide)
    | inr hpoint =>
      obtain ⟨c, rest, _, hrest, hsplit⟩ := hpoint
      have hdigits := List.length_pos_of_ne_nil (hfraction rest hrest).1
      have hfront := List.length_pos_of_ne_nil hinteger.ne_nil
      have hlength := congrArg List.length (hplain.trans hsplit)
      rw [List.length_append, List.length_cons] at hlength
      omega
  | inr hmark =>
    obtain ⟨c, rest, _, hrest, hsplit⟩ := hmark
    have hpower : rest ≠ [] := by
      rintro rfl
      exact (hexponent [] hrest).1 rfl
    have hdigits := List.length_pos_of_ne_nil hpower
    have hfront := List.length_pos_of_ne_nil hmantissa
    have hlength := congrArg List.length hsplit
    rw [List.length_append, List.length_cons] at hlength
    omega

theorem length_positiveZero {lexeme : String} (h : IsNumber lexeme.toList)
    : (utf8 (positiveZero lexeme)).length ≤ (utf8 lexeme).length := by
  unfold positiveZero
  split
  . next hzero =>
    rw [Bool.and_eq_true] at hzero
    have hlength := Utf8.length_le_encoded lexeme.toList
    rw [← Utf8.utf8_chars] at hlength
    exact (float_length h hzero.1).trans hlength
  . exact Nat.le_refl _

end Texts

section Bounds

variable {serde : SerdeJson} {value : Value} {raw : List UInt8} {maxBytes : Nat}

theorem writeBounded_ok {bytes result : List UInt8} {buffers : List (List UInt8)} (h : bytes.length ≤ maxBytes)
    : writeBounded maxBytes bytes buffers = .ok result
      ↔ result = bytes ++ buffers.flatten ∧ result.length ≤ maxBytes := by
  induction buffers generalizing bytes with
  | nil =>
    rw [writeBounded, Except.ok.injEq, List.flatten_nil, List.append_nil]
    constructor
    . rintro rfl
      exact ⟨rfl, h⟩
    . exact fun h => h.1.symm
  | cons buffer rest ih =>
    rw [writeBounded, List.flatten_cons, ← List.append_assoc]
    split
    . next hlarge =>
      apply iff_of_false nofun
      intro h
      rw [h.1, List.length_append, List.length_append] at h
      omega
    . next hroom => exact ih (by rw [List.length_append]; omega)

theorem serializeBounded_ok {state : Serialized} {result : List UInt8}
    : serializeBounded state maxBytes = .ok result
      ↔ state.failure = none ∧ result = state.buffers.flatten ∧ result.length ≤ maxBytes := by
  have hwrite := @writeBounded_ok maxBytes [] result state.buffers (Nat.zero_le _)
  rw [List.nil_append] at hwrite
  unfold serializeBounded
  cases hbytes : writeBounded maxBytes [] state.buffers with
  | error actual =>
    rw [hbytes] at hwrite
    exact iff_of_false nofun (fun h => nomatch hwrite.mpr h.2)
  | ok bytes =>
    rw [hbytes] at hwrite
    rw [← hwrite]
    cases state.failure with
    | none =>
      rw [and_iff_right rfl, Except.ok.injEq, Except.ok.injEq]
    | some message => exact iff_of_false nofun (fun h => nomatch h.1)

theorem preflightJson_ok (hserde : CanonicalJson.Lawful serde) (h : Reads raw value) (operation : CodecOperation)
    : preflightJson serde raw operation = .ok () ↔ WithinShape (presented value) := by
  have hok : preflightJson serde raw operation = .ok ()
      ↔ WithinShape (presented (serde.visit raw).1) ∧ (serde.visit raw).2 = none := by
    unfold preflightJson
    rw [← deserialize_within]
    cases deserialize 1 0 (presented (serde.visit raw).1) with
    | error violation => cases violation <;> exact iff_of_false nofun (fun h => nomatch h.1.choose_spec)
    | ok n =>
      rw [and_iff_right ⟨n, rfl⟩]
      cases (serde.visit raw).2 with
      | none => exact iff_of_true rfl rfl
      | some message => exact iff_of_false nofun nofun
  rw [hok]
  by_cases hlevels : value.levels < 128
  . rw [hserde.complete raw value h hlevels]
    exact and_iff_left rfl
  . have hdeep : ¬ WithinShape (presented value) := by
      intro hwithin
      have hvalue := hwithin.of_presented.1
      unfold maxCanonicalStateDepth at hvalue
      omega
    apply iff_of_false _ hdeep
    intro hread
    have hsame := (hserde.sound raw _ (Prod.ext rfl hread.2)).unique h
    rw [← hsame] at hdeep
    exact hdeep hread.1

-- What is read back from a canonical text has proper numbers and no longer text: whitespace and repeated members
-- are not kept.
def ReadsBack (serde : SerdeJson) : Prop :=
  ∀ value read, value.Every ProperNumber → serde.fromSlice (write serde.quote value) = .ok read →
    read.Every ProperNumber ∧ (write serde.quote read).length ≤ (write serde.quote value).length

theorem encode_ok (hserde : CanonicalJson.Lawful serde) (hback : ReadsBack serde) {state : Serialized}
    (hproper : value.Every ProperNumber)
    (hstate : state.buffers.flatten = write serde.quote value) (hfailure : state.failure = none)
    : (∃ bytes, encodeCanonicalJsonBounded serde state maxBytes = .ok bytes)
      ↔ (write serde.quote value).length ≤ maxBytes ∧ WithinShape (presented value)
        ∧ ∃ read, serde.fromSlice (write serde.quote value) = .ok read := by
  have hreads : Reads (write serde.quote value) value := reads_write hserde.quote hproper
  constructor
  . intro h
    obtain ⟨bytes, hbytes⟩ := h
    obtain ⟨source, hsource, hrest⟩ := Except.bind_eq_ok.mp hbytes
    rw [serializeBounded_ok, hstate] at hsource
    obtain ⟨_, rfl, hlength⟩ := hsource
    obtain ⟨_, hpreflight, hrest⟩ := Except.bind_eq_ok.mp hrest
    obtain ⟨read, hread, _⟩ := Except.bind_eq_ok.mp hrest
    refine ⟨hlength, (preflightJson_ok hserde hreads .encode).mp hpreflight, read, ?_⟩
    cases hslice : serde.fromSlice (write serde.quote value) with
    | error reason =>
      rw [hslice] at hread
      cases hread
    | ok read' =>
      rw [hslice] at hread
      cases hread
      rfl
  . intro h
    obtain ⟨hlength, hshape, read, hread⟩ := h
    obtain ⟨hproper', hshorter⟩ := hback value read hproper hread
    have hcanonical := @length_write_normal serde.quote positiveZero read (fun _ => length_positiveZero) hproper'
    refine ⟨write serde.quote (canonicalize read), ?_⟩
    unfold encodeCanonicalJsonBounded
    have hsource : serializeBounded state maxBytes = .ok (write serde.quote value) :=
      serializeBounded_ok.mpr ⟨hfailure, hstate.symm, hlength⟩
    rw [hsource]
    apply Except.bind_eq_ok.mpr
    refine ⟨_, rfl, Except.bind_eq_ok.mpr ⟨(), (preflightJson_ok hserde hreads .encode).mpr hshape, ?_⟩⟩
    rw [hread]
    apply Except.bind_eq_ok.mpr
    refine ⟨read, rfl, serializeBounded_ok.mpr ⟨rfl, ?_, ?_⟩⟩
    . exact (List.append_nil _).symm
    . exact hcanonical.trans (hshorter.trans hlength)

-- For a text and for a state that are read as a value, its tree alone decides.
structure CountsValues (serde : SerdeJson) (value : Value) (raw : List UInt8) (operation : CodecOperation)
    (state : Serialized) (maxBytes : Nat) : Prop where
  accepts : preflightJson serde raw operation = .ok () ↔ WithinShape value
  agrees : preflightJson serde raw operation = .ok ()
    ↔ CanonicalJson.shapeLoop maxCanonicalStateNodes [(value, 1)] = .ok ()
  encodes : (∃ bytes, encodeCanonicalJsonBounded serde state maxBytes = .ok bytes)
    ↔ WithinShape value ∧ (write serde.quote value).length ≤ maxBytes

theorem countsValues_iff (hserde : CanonicalJson.Lawful serde) (hback : ReadsBack serde) (h : Reads raw value)
    (operation : CodecOperation) {state : Serialized} (hstate : state.buffers.flatten = write serde.quote value)
    (hfailure : state.failure = none)
    : CountsValues serde value raw operation state maxBytes
      ↔ (WithinShape value → WithinShape (presented value)
        ∧ ((write serde.quote value).length ≤ maxBytes →
          ∃ read, serde.fromSlice (write serde.quote value) = .ok read)) := by
  have hloop : CanonicalJson.shapeLoop maxCanonicalStateNodes [(value, 1)] = .ok () ↔ WithinShape value := by
    rw [CanonicalJson.shapeLoop_ok, List.map_singleton, List.sum_singleton, List.forall_mem_singleton,
      Nat.add_le_add_iff_right]
    exact And.comm
  have hless : WithinShape (presented value) → WithinShape value := WithinShape.of_presented
  have hpreflight := preflightJson_ok hserde h operation
  have hencode := @encode_ok _ _ maxBytes hserde hback state h.proper hstate hfailure
  constructor
  . intro hcounts hwithin
    refine ⟨hpreflight.mp (hcounts.accepts.mpr hwithin), fun hlength => ?_⟩
    exact (hencode.mp (hcounts.encodes.mpr ⟨hwithin, hlength⟩)).2.2
  . intro hcondition
    have haccepts : preflightJson serde raw operation = .ok () ↔ WithinShape value :=
      hpreflight.trans ⟨hless, fun hwithin => (hcondition hwithin).1⟩
    refine ⟨haccepts, haccepts.trans hloop.symm, hencode.trans ⟨?_, ?_⟩⟩
    . exact fun h => ⟨hless h.2.1, h.1⟩
    . exact fun h => ⟨h.2, (hcondition h.1).1, (hcondition h.1).2 h.2⟩

end Bounds

section Example

theorem grammarSerde_readsBack : ReadsBack CanonicalJson.grammarSerde := by
  intro value read hproper h
  unfold CanonicalJson.grammarSerde at h
  dsimp only at h
  split at h
  . next hexists =>
    cases h
    rw [hexists.choose_spec.1.unique (reads_write CanonicalJson.isLiteral_quoteText hproper)]
    exact ⟨hproper.normal (fun _ => properNumber_normal (fun _ hnumber => hnumber)),
      length_write_normal (fun _ _ => Nat.le_refl _) hproper⟩
  . cases h

def nested (levels : Nat) (value : Value) : Value :=
  match levels with
  | 0 => value
  | levels + 1 => .array [nested levels value]

theorem nested_half {levels : Nat} {P : Value → Prop} (harray : ∀ items, P (.array items)) (h : P (.number "0.5"))
    : (nested levels (.number "0.5")).Every P := by
  rw [Value.every_iff]
  induction levels with
  | zero => exact ⟨h, fun _ hmem => absurd hmem List.not_mem_nil⟩
  | succ levels ih => exact ⟨harray _, List.forall_mem_singleton.mpr (Value.every_iff.mpr ih)⟩

theorem nested_half_reads (levels : Nat)
    : Reads (write CanonicalJson.quoteText (nested levels (.number "0.5"))) (nested levels (.number "0.5")) := by
  apply reads_write CanonicalJson.isLiteral_quoteText
  refine @nested_half _ ProperNumber (fun _ _ h => nomatch h) ?_
  intro lexeme h
  cases h
  decide

theorem countsValues_half
    : CountsValues CanonicalJson.grammarSerde (nested 1 (.number "0.5"))
        (write CanonicalJson.quoteText (nested 1 (.number "0.5"))) .decode
        ⟨[utf8 "[", utf8 "0.5", utf8 "]"], none⟩ 5 := by
  have hreads := nested_half_reads 1
  apply (countsValues_iff CanonicalJson.grammarSerde_lawful grammarSerde_readsBack hreads .decode (by decide) rfl).mpr
  refine fun _ => ⟨⟨by decide, by decide⟩, fun _ => ⟨(nested 1 (.number "0.5")).normal id, ?_⟩⟩
  apply CanonicalJson.grammarSerde_lawful.fromSlice
  . exact CanonicalJson.grammarSerde_lawful.complete _ _ hreads (by decide)
  . exact nested_half (fun _ _ h => nomatch h) (fun _ h => nomatch h)
  . exact nested_half (fun _ _ h => nomatch h) (fun _ h => nomatch h)

set_option maxRecDepth 8000 in
theorem deepest_half_is_refused
    : WithinShape (nested 63 (.number "0.5")) ∧ preflightJson CanonicalJson.grammarSerde
        (write CanonicalJson.quoteText (nested 63 (.number "0.5"))) .encode = .error (.tooDeep 65 64) := by
  refine ⟨⟨by decide, by decide⟩, ?_⟩
  unfold preflightJson
  rw [CanonicalJson.grammarSerde_lawful.complete _ _ (nested_half_reads 63) (by decide)]
  rfl

end Example

end Fold

end Pliego
