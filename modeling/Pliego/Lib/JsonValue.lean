import Pliego.Lib.JsonGrammar
import Pliego.Lib.Sorting

/-!
The values of JSON documents: their tokens, what they denote, and their normal forms, in which the members of
every object are in order.
-/

namespace JsonText

open Bytes Decimal Sorting

-- Objects are finite maps, numbers are rationals.
inductive Json where
  | null
  | bool (value : Bool)
  | number (value : ℚ)
  | text (value : String)
  | array (items : List Json)
  | object (members : String → Option Json)

mutual

def Value.json (value : Value) : Json :=
  match value with
  | .null => .null
  | .bool value => .bool value
  | .number lexeme => .number (numberValue lexeme.toList)
  | .text value => .text value
  | .array items => .array (itemsJson items)
  | .object members => .object (membersJson members)

def itemsJson (items : List Value) : List Json :=
  match items with
  | [] => []
  | item :: rest => item.json :: itemsJson rest

def membersJson (members : List (String × Value)) (key : String) : Option Json :=
  match members with
  | [] => none
  | (name, value) :: rest => if name = key then some value.json else membersJson rest key

end

mutual

def Value.tokens (value : Value) : List Token :=
  match value with
  | .null => [.null]
  | .bool value => [.bool value]
  | .number lexeme => [.number lexeme]
  | .text value => [.text value]
  | .array items => .mark '[' :: ([Token.mark ','].intercalate (itemsTokens items) ++ [.mark ']'])
  | .object members => .mark '{' :: ([Token.mark ','].intercalate (membersTokens members) ++ [.mark '}'])

def itemsTokens (items : List Value) : List (List Token) :=
  match items with
  | [] => []
  | item :: rest => item.tokens :: itemsTokens rest

def membersTokens (members : List (String × Value)) : List (List Token) :=
  match members with
  | [] => []
  | (name, value) :: rest => (.text name :: .mark ':' :: value.tokens) :: membersTokens rest

end

-- A value and all the values within it.
mutual

def Value.values (value : Value) : List Value :=
  match value with
  | .null => [.null]
  | .bool value => [.bool value]
  | .number lexeme => [.number lexeme]
  | .text value => [.text value]
  | .array items => .array items :: itemsValues items
  | .object members => .object members :: membersValues members

def itemsValues (items : List Value) : List Value :=
  match items with
  | [] => []
  | item :: rest => item.values ++ itemsValues rest

def membersValues (members : List (String × Value)) : List Value :=
  match members with
  | [] => []
  | (_, value) :: rest => value.values ++ membersValues rest

end

mutual

def Value.levels (value : Value) : Nat :=
  match value with
  | .null => 1
  | .bool _ => 1
  | .number _ => 1
  | .text _ => 1
  | .array items => itemsLevels items + 1
  | .object members => membersLevels members + 1

def itemsLevels (items : List Value) : Nat :=
  match items with
  | [] => 0
  | item :: rest => max item.levels (itemsLevels rest)

def membersLevels (members : List (String × Value)) : Nat :=
  match members with
  | [] => 0
  | (_, value) :: rest => max value.levels (membersLevels rest)

end

-- The members of every object in the order of their names, and the numbers as `f` spells them.
mutual

def Value.normal (f : String → String) (value : Value) : Value :=
  match value with
  | .null => .null
  | .bool value => .bool value
  | .number lexeme => .number (f lexeme)
  | .text value => .text value
  | .array items => .array (itemsNormal f items)
  | .object members => .object (sortBy Prod.fst (membersNormal f members))

def itemsNormal (f : String → String) (items : List Value) : List Value :=
  match items with
  | [] => []
  | item :: rest => item.normal f :: itemsNormal f rest

def membersNormal (f : String → String) (members : List (String × Value)) : List (String × Value) :=
  match members with
  | [] => []
  | (name, value) :: rest => (name, value.normal f) :: membersNormal f rest

end

def Value.children (value : Value) : List Value :=
  match value with
  | .array items => items
  | .object members => members.map Prod.snd
  | _ => []

section Children

mutual

theorem Value.induct {P : Value → Prop} (h : ∀ value : Value, (∀ child ∈ value.children, P child) → P value)
    (value : Value)
    : P value := by
  match value with
  | .null => exact h _ (fun _ hmem => absurd hmem List.not_mem_nil)
  | .bool _ => exact h _ (fun _ hmem => absurd hmem List.not_mem_nil)
  | .number _ => exact h _ (fun _ hmem => absurd hmem List.not_mem_nil)
  | .text _ => exact h _ (fun _ hmem => absurd hmem List.not_mem_nil)
  | .array items => exact h _ (itemsInduct h items)
  | .object members => exact h _ (membersInduct h members)

theorem itemsInduct {P : Value → Prop} (h : ∀ value : Value, (∀ child ∈ value.children, P child) → P value)
    (items : List Value)
    : ∀ item ∈ items, P item := by
  match items with
  | [] => exact fun _ hmem => absurd hmem List.not_mem_nil
  | item :: rest => exact List.forall_mem_cons.mpr ⟨Value.induct h item, itemsInduct h rest⟩

theorem membersInduct {P : Value → Prop} (h : ∀ value : Value, (∀ child ∈ value.children, P child) → P value)
    (members : List (String × Value))
    : ∀ child ∈ members.map Prod.snd, P child := by
  match members with
  | [] => exact fun _ hmem => absurd hmem List.not_mem_nil
  | (name, value) :: rest => exact List.forall_mem_cons.mpr ⟨Value.induct h value, membersInduct h rest⟩

end

variable {items : List Value} {members : List (String × Value)} {f : String → String}

theorem itemsJson_eq : itemsJson items = items.map Value.json := by
  induction items with
  | nil => rfl
  | cons item rest ih => rw [itemsJson, ih, List.map_cons]

theorem itemsTokens_eq : itemsTokens items = items.map Value.tokens := by
  induction items with
  | nil => rfl
  | cons item rest ih => rw [itemsTokens, ih, List.map_cons]

theorem membersTokens_eq
    : membersTokens members = members.map (fun member => .text member.1 :: .mark ':' :: member.2.tokens) := by
  induction members with
  | nil => rfl
  | cons member rest ih => rw [membersTokens, ih, List.map_cons]

theorem itemsNormal_eq : itemsNormal f items = items.map (Value.normal f) := by
  induction items with
  | nil => rfl
  | cons item rest ih => rw [itemsNormal, ih, List.map_cons]

theorem membersNormal_eq
    : membersNormal f members = members.map (fun member => (member.1, member.2.normal f)) := by
  induction members with
  | nil => rfl
  | cons member rest ih => rw [membersNormal, ih, List.map_cons]

theorem itemsValues_eq : itemsValues items = items.flatMap Value.values := by
  induction items with
  | nil => rfl
  | cons item rest ih => rw [itemsValues, ih, List.flatMap_cons]

theorem membersValues_eq : membersValues members = (members.map Prod.snd).flatMap Value.values := by
  induction members with
  | nil => rfl
  | cons member rest ih => rw [membersValues, ih, List.map_cons, List.flatMap_cons]

theorem Value.values_eq (value : Value) : value.values = value :: value.children.flatMap Value.values := by
  cases value with
  | array items => rw [Value.values, itemsValues_eq, Value.children]
  | object members => rw [Value.values, membersValues_eq, Value.children]
  | _ => rfl

theorem Value.levels_pos (value : Value) : 1 ≤ value.levels := by
  cases value <;> rw [Value.levels] <;> omega

theorem Value.levels_le {value : Value} {bound : Nat}
    : value.levels ≤ bound + 1 ↔ ∀ child ∈ value.children, child.levels ≤ bound := by
  have hitems : ∀ items : List Value, itemsLevels items ≤ bound ↔ ∀ item ∈ items, item.levels ≤ bound := by
    intro items
    induction items with
    | nil => exact iff_of_true (Nat.zero_le _) (fun _ hmem => absurd hmem List.not_mem_nil)
    | cons item rest ih => rw [itemsLevels, max_le_iff, ih, List.forall_mem_cons]
  have hmembers : ∀ members : List (String × Value),
      membersLevels members ≤ bound ↔ ∀ child ∈ members.map Prod.snd, child.levels ≤ bound := by
    intro members
    induction members with
    | nil => exact iff_of_true (Nat.zero_le _) (fun _ hmem => absurd hmem List.not_mem_nil)
    | cons member rest ih => rw [membersLevels, max_le_iff, ih, List.map_cons, List.forall_mem_cons]
  cases value with
  | array items => rw [Value.levels, Nat.add_le_add_iff_right, hitems, Value.children]
  | object members => rw [Value.levels, Nat.add_le_add_iff_right, hmembers, Value.children]
  | _ => exact iff_of_true (Nat.le_add_left _ _) (fun _ hmem => absurd hmem List.not_mem_nil)

theorem Value.levels_add_le {value : Value} {depth bound : Nat}
    : value.levels + depth ≤ bound + 1
      ↔ depth ≤ bound ∧ ∀ child ∈ value.children, child.levels + (depth + 1) ≤ bound + 1 := by
  have hpos := value.levels_pos
  have hiff := @Value.levels_le value (bound - depth)
  constructor
  . intro h
    refine ⟨by omega, fun child hchild => ?_⟩
    have hchild := hiff.mp (by omega) child hchild
    omega
  . intro h
    have hvalue := hiff.mpr (fun child hchild => by
      have hchild := h.2 child hchild
      omega)
    omega

def Value.Every (P : Value → Prop) (value : Value) : Prop := ∀ part ∈ value.values, P part

theorem Value.every_iff {P : Value → Prop} {value : Value}
    : value.Every P ↔ P value ∧ ∀ child ∈ value.children, child.Every P := by
  unfold Value.Every
  rw [Value.values_eq, List.forall_mem_cons]
  simp only [List.mem_flatMap, forall_exists_index, and_imp]
  constructor
  . exact fun h => ⟨h.1, fun child hchild part hpart => h.2 part child hchild hpart⟩
  . exact fun h => ⟨h.1, fun part child hchild hpart => h.2 child hchild part hpart⟩

end Children

section Normal

attribute [local simp] Value.json itemsJson membersJson Value.tokens itemsTokens membersTokens Value.values itemsValues
  membersValues Value.levels itemsLevels membersLevels Value.normal itemsNormal membersNormal

variable {f : String → String} {value value' : Value} {members members' : List (String × Value)}

theorem Value.children_normal : (value.normal f).children.Perm (value.children.map (Value.normal f)) := by
  cases value with
  | array items =>
    rw [Value.normal, itemsNormal_eq]
    exact List.Perm.refl _
  | object members =>
    rw [Value.normal, membersNormal_eq]
    unfold Value.children
    rw [List.map_map]
    apply (sortBy_perm.map Prod.snd).trans
    rw [List.map_map]
    exact List.Perm.refl _
  | _ => exact List.Perm.nil

theorem Value.length_values_normal : (value.normal f).values.length = value.values.length := by
  induction value using Value.induct with
  | h value ih =>
    have hchildren : ∀ children : List Value, (children.flatMap Value.values).length
        = (children.map (fun child => child.values.length)).sum := fun _ => List.length_flatMap
    rw [Value.values_eq, Value.values_eq value, List.length_cons, List.length_cons, hchildren, hchildren,
      (Value.children_normal.map _).sum_eq, List.map_map]
    congr 2
    apply List.map_congr_left
    exact fun child hchild => ih child hchild

theorem Value.levels_normal : (value.normal f).levels = value.levels := by
  have hle : ∀ bound, (value.normal f).levels ≤ bound ↔ value.levels ≤ bound := by
    induction value using Value.induct with
    | h value ih =>
      intro bound
      cases bound with
      | zero =>
        exact iff_of_false (Nat.not_le_of_lt (Value.levels_pos _)) (Nat.not_le_of_lt (Value.levels_pos _))
      | succ bound =>
        rw [Value.levels_le, Value.levels_le]
        simp only [Value.children_normal.mem_iff, List.forall_mem_map]
        constructor
        . exact fun h child hchild => (ih child hchild bound).mp (h child hchild)
        . exact fun h child hchild => (ih child hchild bound).mpr (h child hchild)
  exact le_antisymm ((hle _).mpr (le_refl _)) ((hle _).mp (le_refl _))

theorem Value.Every.normal {P Q : Value → Prop} (h : value.Every P) (hnormal : ∀ part, P part → Q (part.normal f))
    : (value.normal f).Every Q := by
  induction value using Value.induct with
  | h value ih =>
    rw [Value.every_iff] at h ⊢
    refine ⟨hnormal value h.1, ?_⟩
    simp only [Value.children_normal.mem_iff, List.forall_mem_map]
    exact fun child hchild => ih child hchild (h.2 child hchild)

-- A value that is an object has no two members of one name.
def UniqueNames (value : Value) : Prop := ∀ members, value = .object members → (members.map Prod.fst).Nodup

def ProperNumber (value : Value) : Prop := ∀ lexeme, value = .number lexeme → IsNumber lexeme.toList

def Unnamed (name : String) (value : Value) : Prop :=
  ∀ members, value = .object members → name ∉ members.map Prod.fst

theorem names_normal : ((sortBy Prod.fst (membersNormal f members)).map Prod.fst).Perm (members.map Prod.fst) := by
  rw [membersNormal_eq]
  apply (sortBy_perm.map Prod.fst).trans
  rw [List.map_map]
  exact List.Perm.refl _

theorem object_of_normal (h : value.normal f = .object members')
    : ∃ members, value = .object members ∧ members' = sortBy Prod.fst (membersNormal f members) := by
  cases value with
  | object members =>
    rw [Value.normal] at h
    cases h
    exact ⟨members, rfl, rfl⟩
  | _ =>
    rw [Value.normal] at h
    cases h

theorem uniqueNames_normal (h : UniqueNames value) : UniqueNames (value.normal f) := by
  intro members' hobject
  obtain ⟨members, hvalue, rfl⟩ := object_of_normal hobject
  exact names_normal.nodup_iff.mpr (h members hvalue)

theorem unnamed_normal {name : String} (h : Unnamed name value) : Unnamed name (value.normal f) := by
  intro members' hobject
  obtain ⟨members, hvalue, rfl⟩ := object_of_normal hobject
  rw [names_normal.mem_iff]
  exact h members hvalue

theorem properNumber_normal (hf : ∀ lexeme : String, IsNumber lexeme.toList → IsNumber (f lexeme).toList)
    (h : ProperNumber value)
    : ProperNumber (value.normal f) := by
  intro lexeme hnumber
  cases value with
  | number lexeme' =>
    rw [Value.normal] at hnumber
    cases hnumber
    exact hf lexeme' (h lexeme' rfl)
  | _ =>
    rw [Value.normal] at hnumber
    cases hnumber

theorem membersJson_eq_some {name : String} {json : Json} (h : (members.map Prod.fst).Nodup)
    : membersJson members name = some json ↔ ∃ value, (name, value) ∈ members ∧ value.json = json := by
  induction members with
  | nil =>
    rw [membersJson]
    simp
  | cons member rest ih =>
    obtain ⟨first, value⟩ := member
    rw [List.map_cons, List.nodup_cons] at h
    rw [membersJson]
    split
    . next hname =>
      constructor
      . intro hsome
        cases hsome
        exact ⟨value, by rw [hname]; exact List.mem_cons_self, rfl⟩
      . intro hmem
        obtain ⟨value', hmem, hjson⟩ := hmem
        cases List.mem_cons.mp hmem with
        | inl hsame =>
          cases hsame
          rw [hjson]
        | inr hrest =>
          rw [← hname] at hrest
          exact absurd (List.mem_map_of_mem hrest) h.1
    . next hname =>
      rw [ih h.2]
      constructor
      . intro hmem
        obtain ⟨value', hmem, hjson⟩ := hmem
        exact ⟨value', List.mem_cons_of_mem _ hmem, hjson⟩
      . intro hmem
        obtain ⟨value', hmem, hjson⟩ := hmem
        cases List.mem_cons.mp hmem with
        | inl hsame =>
          cases hsame
          exact absurd rfl hname
        | inr hrest => exact ⟨value', hrest, hjson⟩

theorem Value.json_normal (hunique : value.Every UniqueNames) (hproper : value.Every ProperNumber)
    (hf : ∀ lexeme : String, IsNumber lexeme.toList → numberValue (f lexeme).toList = numberValue lexeme.toList)
    : (value.normal f).json = value.json := by
  induction value using Value.induct with
  | h value ih =>
    rw [Value.every_iff] at hunique hproper
    cases value with
    | array items =>
      rw [Value.normal, Value.json, Value.json, itemsNormal_eq, itemsJson_eq, itemsJson_eq, List.map_map]
      congr 1
      apply List.map_congr_left
      exact fun child hchild => ih child hchild (hunique.2 child hchild) (hproper.2 child hchild)
    | object members =>
      rw [Value.normal, Value.json, Value.json]
      congr 1
      funext name
      have hnames := hunique.1 members rfl
      apply Option.ext
      intro json
      rw [membersJson_eq_some (names_normal.nodup_iff.mpr hnames), membersJson_eq_some hnames]
      simp only [mem_sortBy, membersNormal_eq, List.mem_map, Prod.mk.injEq, Prod.exists]
      constructor
      . intro h
        obtain ⟨_, ⟨name', value, hmem, rfl, rfl⟩, hjson⟩ := h
        have hchild : value ∈ (Value.object members).children := List.mem_map_of_mem hmem
        rw [ih value hchild (hunique.2 value hchild) (hproper.2 value hchild)] at hjson
        exact ⟨value, hmem, hjson⟩
      . intro h
        obtain ⟨value, hmem, hjson⟩ := h
        have hchild : value ∈ (Value.object members).children := List.mem_map_of_mem hmem
        refine ⟨_, ⟨name, value, hmem, rfl, rfl⟩, ?_⟩
        rw [ih value hchild (hunique.2 value hchild) (hproper.2 value hchild)]
        exact hjson
    | number lexeme =>
      rw [Value.normal, Value.json, Value.json, hf lexeme (hproper.1 lexeme rfl)]
    | _ => rfl

theorem itemsNormal_of_json {items items' : List Value}
    (hchildren : ∀ child ∈ items, ∀ child' ∈ items', child.json = child'.json → child.normal f = child'.normal f)
    (h : items.map Value.json = items'.map Value.json)
    : items.map (Value.normal f) = items'.map (Value.normal f) := by
  induction items generalizing items' with
  | nil =>
    cases items' with
    | nil => rfl
    | cons _ _ => cases h
  | cons item rest ih =>
    cases items' with
    | nil => cases h
    | cons item' rest' =>
      rw [List.map_cons, List.map_cons, List.cons.injEq] at h
      rw [List.map_cons, List.map_cons, hchildren item List.mem_cons_self item' List.mem_cons_self h.1,
        ih (fun child hchild child' hchild' => hchildren child (List.mem_cons_of_mem _ hchild) child'
          (List.mem_cons_of_mem _ hchild')) h.2]

theorem mem_membersNormal_of_json (hunique : (members.map Prod.fst).Nodup) (hunique' : (members'.map Prod.fst).Nodup)
    (hchildren : ∀ child ∈ members.map Prod.snd, ∀ child' ∈ members'.map Prod.snd, child.json = child'.json →
      child.normal f = child'.normal f)
    (h : ∀ name, membersJson members name = membersJson members' name) {member : String × Value}
    (hmem : member ∈ membersNormal f members)
    : member ∈ membersNormal f members' := by
  rw [membersNormal_eq, List.mem_map] at hmem ⊢
  obtain ⟨⟨name, value⟩, hmem, rfl⟩ := hmem
  have hsome := (membersJson_eq_some hunique).mpr ⟨value, hmem, rfl⟩
  rw [h, membersJson_eq_some hunique'] at hsome
  obtain ⟨value', hmem', hjson⟩ := hsome
  refine ⟨(name, value'), hmem', ?_⟩
  dsimp only
  rw [hchildren value (List.mem_map_of_mem hmem) value' (List.mem_map_of_mem hmem') hjson.symm]

theorem sortBy_membersNormal_of_json (hunique : (members.map Prod.fst).Nodup)
    (hunique' : (members'.map Prod.fst).Nodup)
    (hchildren : ∀ child ∈ members.map Prod.snd, ∀ child' ∈ members'.map Prod.snd, child.json = child'.json →
      child.normal f = child'.normal f)
    (h : ∀ name, membersJson members name = membersJson members' name)
    : sortBy Prod.fst (membersNormal f members) = sortBy Prod.fst (membersNormal f members') := by
  have hnames : ∀ members : List (String × Value),
      (membersNormal f members).map Prod.fst = members.map Prod.fst := by
    intro members
    rw [membersNormal_eq, List.map_map]
    rfl
  have hnodup : ((membersNormal f members).map Prod.fst).Nodup := by
    rw [hnames]
    exact hunique
  have hnodup' : ((membersNormal f members').map Prod.fst).Nodup := by
    rw [hnames]
    exact hunique'
  apply sortBy_eq_of_perm _ hnodup
  rw [List.perm_ext_iff_of_nodup hnodup.of_map hnodup'.of_map]
  intro member
  constructor
  . exact mem_membersNormal_of_json hunique hunique' hchildren h
  . exact mem_membersNormal_of_json hunique' hunique
      (fun child' hchild' child hchild hjson => (hchildren child hchild child' hchild' hjson.symm).symm)
      (fun name => (h name).symm)

theorem Value.normal_eq_of_json (hunique : value.Every UniqueNames) (hunique' : value'.Every UniqueNames)
    (hproper : value.Every ProperNumber) (hproper' : value'.Every ProperNumber)
    (hf : ∀ lexeme lexeme' : String, IsNumber lexeme.toList → IsNumber lexeme'.toList →
      numberValue lexeme.toList = numberValue lexeme'.toList → f lexeme = f lexeme')
    (h : value.json = value'.json)
    : value.normal f = value'.normal f := by
  induction value using Value.induct generalizing value' with
  | h value ih =>
    rw [Value.every_iff] at hunique hproper hunique' hproper'
    have hchildren : ∀ child ∈ value.children, ∀ child' ∈ value'.children, child.json = child'.json →
        child.normal f = child'.normal f := fun child hchild child' hchild' hjson =>
      ih child hchild (hunique.2 child hchild) (hunique'.2 child' hchild') (hproper.2 child hchild)
        (hproper'.2 child' hchild') hjson
    cases value with
    | null =>
      cases value' with
      | null => rfl
      | _ => cases h
    | bool _ =>
      cases value' with
      | bool _ =>
        cases h
        rfl
      | _ => cases h
    | number lexeme =>
      cases value' with
      | number lexeme' =>
        rw [Value.json, Value.json, Json.number.injEq] at h
        rw [Value.normal, Value.normal, hf lexeme lexeme' (hproper.1 lexeme rfl) (hproper'.1 lexeme' rfl) h]
      | _ => cases h
    | text _ =>
      cases value' with
      | text _ =>
        cases h
        rfl
      | _ => cases h
    | array items =>
      cases value' with
      | array items' =>
        rw [Value.json, Value.json, Json.array.injEq, itemsJson_eq, itemsJson_eq] at h
        rw [Value.normal, Value.normal, itemsNormal_eq, itemsNormal_eq]
        exact congrArg Value.array (itemsNormal_of_json hchildren h)
      | _ => cases h
    | object members =>
      cases value' with
      | object members' =>
        rw [Value.json, Value.json, Json.object.injEq] at h
        rw [Value.normal, Value.normal]
        rw [sortBy_membersNormal_of_json (hunique.1 members rfl) (hunique'.1 members' rfl) hchildren (congrFun h)]
      | _ => cases h

end Normal

section Reading

variable {quote : String → List UInt8} {value value' : Value} {tokens tokens' : List Token}
  {xs ys : List Char}

def Reads (raw : List UInt8) (value : Value) : Prop :=
  ∃ chars, raw = utf8 (String.ofList chars) ∧ Lexed chars value.tokens

def IsLiteral (raw : List UInt8) (text : String) : Prop :=
  ∃ body, raw = utf8 (String.ofList ('"' :: (body ++ ['"']))) ∧ Literal body text.toList

theorem utf8_ofList_append (xs ys : List Char)
    : utf8 (String.ofList (xs ++ ys)) = utf8 (String.ofList xs) ++ utf8 (String.ofList ys) := by
  rw [utf8_ofList, utf8_ofList, utf8_ofList, List.flatMap_append]

theorem utf8_ofList_cons (c : Char) (xs : List Char)
    : utf8 (String.ofList (c :: xs)) = String.utf8EncodeChar c ++ utf8 (String.ofList xs) := by
  rw [utf8_ofList, utf8_ofList, List.flatMap_cons]

theorem Lexed.append (h : Lexed xs tokens) (h' : Lexed ys tokens')
    (hhead : ∀ c, ys.head? = some c → isNumberChar c = false)
    : Lexed (xs ++ ys) (tokens ++ tokens') := by
  induction h with
  | nil => exact h'
  | blank hc _ ih => exact .blank hc ih
  | @token text rest token tokens first hends _ ih =>
    rw [List.append_assoc, List.cons_append]
    refine .token first ?_ ih
    cases token with
    | number lexeme =>
      intro c hc
      cases rest with
      | nil => exact hhead c hc
      | cons d rest => exact hends c hc
    | _ => exact True.intro

theorem Lexed.mark {c : Char} (hc : isMark c = true) (h : Lexed xs tokens)
    : Lexed (c :: xs) (.mark c :: tokens) :=
  @Lexed.token [c] xs _ _ (.mark hc) True.intro h

theorem mark_ascii {c : Char} (hc : isMark c = true)
    : String.utf8EncodeChar c = [UInt8.ofNat c.toNat] ∧ isNumberChar c = false := by
  unfold isMark at hc
  simp only [Bool.or_eq_true, beq_iff_eq] at hc
  rcases hc with ((((rfl | rfl) | rfl) | rfl) | rfl) | rfl <;> exact ⟨by decide, rfl⟩

theorem sequence_lexed {α : Type} {f : α → List UInt8} {g : α → List Token} {parts : List α} {stop : Char}
    (hstop : isMark stop = true)
    (hparts : ∀ part ∈ parts, ∃ chars, f part = utf8 (String.ofList chars) ∧ Lexed chars (g part))
    : ∃ chars, [44].intercalate (parts.map f) ++ [UInt8.ofNat stop.toNat] = utf8 (String.ofList chars)
        ∧ Lexed chars ([Token.mark ','].intercalate (parts.map g) ++ [.mark stop]) := by
  obtain ⟨hascii, hnumber⟩ := mark_ascii hstop
  induction parts with
  | nil =>
    refine ⟨[stop], ?_, .mark hstop .nil⟩
    rw [utf8_ofList_cons, hascii]
    rfl
  | cons part rest ih =>
    obtain ⟨hpart, hrest⟩ := List.forall_mem_cons.mp hparts
    obtain ⟨chars, htext, hlexed⟩ := hpart
    obtain ⟨others, hothers, hlexed'⟩ := ih hrest
    cases rest with
    | nil =>
      refine ⟨chars ++ [stop], ?_, ?_⟩
      . rw [utf8_ofList_append, utf8_ofList_cons, hascii, ← htext, List.map_singleton, List.intercalate_singleton]
        rfl
      . rw [List.map_singleton, List.intercalate_singleton]
        apply hlexed.append (.mark hstop .nil)
        intro c hc
        cases hc
        exact hnumber
    | cons second rest =>
      refine ⟨chars ++ ',' :: others, ?_, ?_⟩
      . rw [utf8_ofList_append, utf8_ofList_cons, ← hothers, ← htext, List.map_cons, List.map_cons,
          List.intercalate_cons_cons, List.append_assoc, List.append_assoc]
        rfl
      . rw [List.map_cons, List.map_cons, List.intercalate_cons_cons, List.append_assoc, List.append_assoc]
        apply hlexed.append (.mark rfl hlexed')
        intro c hc
        cases hc
        rfl

theorem writeItems_eq {items : List Value} : writeItems quote items = items.map (write quote) := by
  induction items with
  | nil => rfl
  | cons item rest ih => rw [writeItems, ih, List.map_cons]

theorem writeMembers_eq {members : List (String × Value)}
    : writeMembers quote members = members.map (fun member => quote member.1 ++ [58] ++ write quote member.2) := by
  induction members with
  | nil => rfl
  | cons member rest ih => rw [writeMembers, ih, List.map_cons]

theorem reads_write (hquote : ∀ text, IsLiteral (quote text) text) (hproper : value.Every ProperNumber)
    : Reads (write quote value) value := by
  have hword : ∀ {chars : List Char} {token : Token}, Spells chars token → Ends token [] →
      Lexed chars [token] := by
    intro chars token hspells hends
    have hlexed := Lexed.token hspells hends .nil
    rw [List.append_nil] at hlexed
    exact hlexed
  have htext : ∀ text, ∃ chars, quote text = utf8 (String.ofList chars) ∧ Spells chars (.text text) := by
    intro text
    obtain ⟨body, hraw, hliteral⟩ := hquote text
    refine ⟨_, hraw, ?_⟩
    have hspells := Spells.text hliteral
    rw [String.ofList_toList] at hspells
    exact hspells
  induction value using Value.induct with
  | h value ih =>
    rw [Value.every_iff] at hproper
    have hchildren := fun child hchild => ih child hchild (hproper.2 child hchild)
    cases value with
    | null => exact ⟨['n', 'u', 'l', 'l'], rfl, hword .nullWord True.intro⟩
    | bool value =>
      cases value with
      | false => exact ⟨['f', 'a', 'l', 's', 'e'], rfl, hword .falseWord True.intro⟩
      | true => exact ⟨['t', 'r', 'u', 'e'], rfl, hword .trueWord True.intro⟩
    | number lexeme =>
      refine ⟨lexeme.toList, by rw [String.ofList_toList]; rfl, ?_⟩
      have hspells := Spells.number (hproper.1 lexeme rfl)
      rw [String.ofList_toList] at hspells
      apply hword hspells
      intro c hc
      cases hc
    | text text =>
      obtain ⟨chars, hchars, hspells⟩ := htext text
      exact ⟨chars, hchars, hword hspells True.intro⟩
    | array items =>
      obtain ⟨chars, hchars, hlexed⟩ := @sequence_lexed _ (write quote) Value.tokens items ']' rfl hchildren
      refine ⟨'[' :: chars, ?_, ?_⟩
      . rw [utf8_ofList_cons, ← hchars, write, writeItems_eq]
        rfl
      . rw [Value.tokens, itemsTokens_eq]
        exact .mark rfl hlexed
    | object members =>
      obtain ⟨chars, hchars, hlexed⟩ := @sequence_lexed _
        (fun member : String × Value => quote member.1 ++ [58] ++ write quote member.2)
        (fun member => .text member.1 :: .mark ':' :: member.2.tokens) members '}' rfl (by
          intro member hmember
          obtain ⟨name, hname, hspells⟩ := htext member.1
          obtain ⟨chars, hchars, hlexed⟩ := hchildren member.2 (List.mem_map_of_mem hmember)
          refine ⟨name ++ ':' :: chars, ?_, .token hspells True.intro (.mark rfl hlexed)⟩
          rw [utf8_ofList_append, utf8_ofList_cons, hname, hchars, List.append_assoc]
          rfl)
      refine ⟨'{' :: chars, ?_, ?_⟩
      . rw [utf8_ofList_cons, ← hchars, write, writeMembers_eq]
        rfl
      . rw [Value.tokens, membersTokens_eq]
        exact .mark rfl hlexed

theorem Value.tokens_start (value : Value)
    : ∃ token rest, value.tokens = token :: rest ∧ token ≠ .mark ']' ∧ token ≠ .mark ',' := by
  cases value with
  | array items => exact ⟨.mark '[', _, rfl, by simp, by simp⟩
  | object members => exact ⟨.mark '{', _, rfl, by simp, by simp⟩
  | _ => exact ⟨_, _, rfl, by simp, by simp⟩

theorem sequence_unique {α : Type} {g : α → List Token} {parts parts' : List α} {stop : Char}
    {rest rest' : List Token} (hstop : stop ≠ ',')
    (hstart : ∀ part, ∃ token others, g part = token :: others ∧ token ≠ .mark stop)
    (hparts : ∀ part ∈ parts, ∀ part' r r', g part ++ r = g part' ++ r' → part = part' ∧ r = r')
    (h : [Token.mark ','].intercalate (parts.map g) ++ .mark stop :: rest
      = [Token.mark ','].intercalate (parts'.map g) ++ .mark stop :: rest')
    : parts = parts' ∧ rest = rest' := by
  have hempty : ∀ {part : α} {others : List α} {r r' : List Token},
      [Token.mark ','].intercalate ((part :: others).map g) ++ r ≠ .mark stop :: r' := by
    intro part others r r' heq
    obtain ⟨token, tail, hpart, hne⟩ := hstart part
    cases others with
    | nil =>
      rw [List.map_singleton, List.intercalate_singleton, hpart] at heq
      cases heq
      exact hne rfl
    | cons second others =>
      rw [List.map_cons, List.map_cons, List.intercalate_cons_cons, hpart] at heq
      cases heq
      exact hne rfl
  induction parts generalizing parts' with
  | nil =>
    cases parts' with
    | nil =>
      cases h
      exact ⟨rfl, rfl⟩
    | cons part' others' => exact absurd h.symm hempty
  | cons part others ih =>
    obtain ⟨hpart, hothers⟩ := List.forall_mem_cons.mp hparts
    cases parts' with
    | nil => exact absurd h hempty
    | cons part' others' =>
      cases others with
      | nil =>
        cases others' with
        | nil =>
          rw [List.map_singleton, List.map_singleton, List.intercalate_singleton, List.intercalate_singleton] at h
          obtain ⟨rfl, hrest⟩ := hpart part' _ _ h
          cases hrest
          exact ⟨rfl, rfl⟩
        | cons second' others' =>
          rw [List.map_singleton, List.intercalate_singleton, List.map_cons, List.map_cons,
            List.intercalate_cons_cons, List.append_assoc, List.append_assoc] at h
          obtain ⟨-, hrest⟩ := hpart part' _ _ h
          rw [List.singleton_append, List.cons.injEq, Token.mark.injEq] at hrest
          exact absurd hrest.1 hstop
      | cons second others =>
        cases others' with
        | nil =>
          rw [List.map_singleton, List.intercalate_singleton, List.map_cons, List.map_cons,
            List.intercalate_cons_cons, List.append_assoc, List.append_assoc] at h
          obtain ⟨-, hrest⟩ := hpart part' _ _ h
          rw [List.singleton_append, List.cons.injEq, Token.mark.injEq] at hrest
          exact absurd hrest.1.symm hstop
        | cons second' others' =>
          rw [List.map_cons, List.map_cons, List.intercalate_cons_cons, List.append_assoc, List.append_assoc,
            List.map_cons, List.map_cons, List.intercalate_cons_cons, List.append_assoc, List.append_assoc] at h
          obtain ⟨rfl, hrest⟩ := hpart part' _ _ h
          rw [List.singleton_append, List.singleton_append, List.cons.injEq] at hrest
          obtain ⟨hsame, hend⟩ := @ih (second' :: others') hothers hrest.2
          exact ⟨by rw [hsame], hend⟩

theorem Value.tokens_inj {rest rest' : List Token} (h : value.tokens ++ rest = value'.tokens ++ rest')
    : value = value' ∧ rest = rest' := by
  induction value using Value.induct generalizing value' rest rest' with
  | h value ih =>
    cases value with
    | array items =>
      cases value' with
      | array items' =>
        rw [Value.tokens, Value.tokens, List.cons_append, List.cons_append, List.cons.injEq, itemsTokens_eq,
          itemsTokens_eq, List.append_assoc, List.append_assoc] at h
        obtain ⟨rfl, hrest⟩ := sequence_unique (by decide) (fun part => by
          obtain ⟨token, others, hpart, hne, -⟩ := part.tokens_start
          exact ⟨token, others, hpart, hne⟩)
          (fun part hpart part' r r' hsame => ih part hpart hsame) h.2
        exact ⟨rfl, hrest⟩
      | _ => simp [Value.tokens] at h
    | object members =>
      cases value' with
      | object members' =>
        rw [Value.tokens, Value.tokens, List.cons_append, List.cons_append, List.cons.injEq, membersTokens_eq,
          membersTokens_eq, List.append_assoc, List.append_assoc] at h
        obtain ⟨rfl, hrest⟩ := sequence_unique (by decide) (fun part => ⟨_, _, rfl, by simp⟩)
          (fun part hpart part' r r' hsame => by
            rw [List.cons_append, List.cons_append, List.cons_append, List.cons_append, List.cons.injEq,
              Token.text.injEq, List.cons.injEq] at hsame
            obtain ⟨hvalue, hr⟩ := ih part.2 (List.mem_map_of_mem hpart) hsame.2.2
            exact ⟨Prod.ext hsame.1 hvalue, hr⟩) h.2
        exact ⟨rfl, hrest⟩
      | _ => simp [Value.tokens] at h
    | null =>
      cases value' with
      | null => exact ⟨rfl, by simpa [Value.tokens] using h⟩
      | _ => simp [Value.tokens] at h
    | bool b =>
      cases value' with
      | bool b' =>
        simp only [Value.tokens, List.singleton_append, List.cons.injEq, Token.bool.injEq] at h
        exact ⟨by rw [h.1], h.2⟩
      | _ => simp [Value.tokens] at h
    | number lexeme =>
      cases value' with
      | number lexeme' =>
        simp only [Value.tokens, List.singleton_append, List.cons.injEq, Token.number.injEq] at h
        exact ⟨by rw [h.1], h.2⟩
      | _ => simp [Value.tokens] at h
    | text text =>
      cases value' with
      | text text' =>
        simp only [Value.tokens, List.singleton_append, List.cons.injEq, Token.text.injEq] at h
        exact ⟨by rw [h.1], h.2⟩
      | _ => simp [Value.tokens] at h

theorem Reads.unique {raw : List UInt8} (h : Reads raw value) (h' : Reads raw value') : value = value' := by
  obtain ⟨chars, hraw, hlexed⟩ := h
  obtain ⟨chars', hraw', hlexed'⟩ := h'
  rw [hraw] at hraw'
  rw [← String.ofList_injective (utf8_inj hraw')] at hlexed'
  have htokens := hlexed.unique hlexed'
  rw [← List.append_nil value.tokens, ← List.append_nil value'.tokens] at htokens
  exact (Value.tokens_inj htokens).1

theorem Lexed.numbers (h : Lexed xs tokens) {lexeme : String} (hmem : .number lexeme ∈ tokens)
    : IsNumber lexeme.toList := by
  induction h with
  | nil => cases hmem
  | blank _ _ ih => exact ih hmem
  | token first _ _ ih =>
    cases List.mem_cons.mp hmem with
    | inl hfirst =>
      subst hfirst
      cases first with
      | number hnumber =>
        rw [String.toList_ofList]
        exact hnumber
    | inr hrest => exact ih hrest

theorem Value.number_mem_tokens {lexeme : String} (h : .number lexeme ∈ value.values)
    : .number lexeme ∈ value.tokens := by
  induction value using Value.induct with
  | h value ih =>
    rw [Value.values_eq, List.mem_cons, List.mem_flatMap] at h
    cases h with
    | inl hsame =>
      rw [← hsame, Value.tokens]
      exact List.mem_cons_self
    | inr hchild =>
      obtain ⟨child, hchild, hmem⟩ := hchild
      have htoken := ih child hchild hmem
      have hsequence : ∀ {parts : List (List Token)} {part : List Token}, part ∈ parts → .number lexeme ∈ part →
          .number lexeme ∈ [Token.mark ','].intercalate parts := by
        intro parts part hpart hnumber
        induction parts with
        | nil => cases hpart
        | cons first rest ih =>
          cases rest with
          | nil =>
            rw [List.mem_singleton] at hpart
            rw [List.intercalate_singleton, ← hpart]
            exact hnumber
          | cons second rest =>
            rw [List.intercalate_cons_cons, List.mem_append, List.mem_append]
            cases List.mem_cons.mp hpart with
            | inl hfirst => exact .inl (.inl (hfirst ▸ hnumber))
            | inr hrest => exact .inr (ih hrest)
      cases value with
      | array items =>
        rw [Value.tokens, itemsTokens_eq]
        apply List.mem_cons_of_mem
        exact List.mem_append_left _ (hsequence (List.mem_map_of_mem hchild) htoken)
      | object members =>
        obtain ⟨member, hmember, rfl⟩ := List.mem_map.mp hchild
        rw [Value.tokens, membersTokens_eq]
        apply List.mem_cons_of_mem
        refine List.mem_append_left _ (hsequence (List.mem_map_of_mem hmember) ?_)
        exact List.mem_cons_of_mem _ (List.mem_cons_of_mem _ htoken)
      | _ => cases hchild

theorem Reads.proper {raw : List UInt8} (h : Reads raw value) : value.Every ProperNumber := by
  obtain ⟨chars, -, hlexed⟩ := h
  intro part hpart lexeme hnumber
  subst hnumber
  exact hlexed.numbers (Value.number_mem_tokens hpart)

end Reading

end JsonText
