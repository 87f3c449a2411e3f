import DecryptorNode.Proofs.Network.JsonTexts
import Mathlib.Data.List.Forall2

/-! Records in JSON. A value holds a record as an array of the values of its fields in order, or as
an object in which the name of each field is there exactly once, however it is written. The order of
members and members of other names do not matter. -/
namespace DecryptorNode.Network.Json

theorem Denotes.unique {raw : Bytes} {chars chars' : List Char} (h : Denotes raw chars)
    (h' : Denotes raw chars') : chars = chars' :=
  Option.some.inj ((characters?_eq_some.mpr h).symm.trans (characters?_eq_some.mpr h'))

instance (raw : Bytes) (chars : List Char) : Decidable (Denotes raw chars) :=
  decidable_of_iff _ characters?_eq_some

/-- The members of a name, whichever way the name is written. -/
def called (name : String) (members : List (Bytes × Value)) : List (Bytes × Value) :=
  members.filter fun member => Denotes member.1 name.toList

/-- One member has the name, and it has the value. -/
def Once (members : List (Bytes × Value)) (name : String) (v : Value) : Prop :=
  ∃ raw, called name members = [(raw, v)]

def Legible (members : List (Bytes × Value)) : Prop :=
  ∀ member ∈ members, ∃ chars, Denotes member.1 chars

/-- The values of the fields of a record, in the order of the fields. -/
inductive Record (names : List String) : Value → List Value → Prop
  | array {values : List Value} (whole : values.length = names.length) :
      Record names (.array values) values
  | object {members : List (Bytes × Value)} {values : List Value} (legible : Legible members)
      (fields : List.Forall₂ (Once members) names values) : Record names (.object members) values

section Reading
variable {members : List (Bytes × Value)} {named : List (List Char × Value)}

private theorem mapM_eq_some {α β : Type} {f : α → Option β} {xs : List α} {ys : List β} :
    xs.mapM f = some ys ↔ List.Forall₂ (fun x y => f x = some y) xs ys := by
  induction xs generalizing ys with
  | nil => simp [eq_comm]
  | cons x xs ih =>
    simp only [List.mapM_cons, Option.bind_eq_bind, Option.bind_eq_some_iff,
      List.forall₂_cons_left_iff, ih]
    constructor
    · rintro ⟨y, first, others, rest, same⟩
      cases same
      exact ⟨y, others, first, rest, rfl⟩
    · rintro ⟨y, others, first, rest, rfl⟩
      exact ⟨y, first, others, rest, rfl⟩

def Named (members : List (Bytes × Value)) (named : List (List Char × Value)) : Prop :=
  List.Forall₂ (fun member entry => Denotes member.1 entry.1 ∧ member.2 = entry.2) members named

private theorem namedMembers?_eq_some :
    Value.namedMembers? members = some named ↔ Named members named := by
  rw [Value.namedMembers?, mapM_eq_some, Named]
  refine iff_of_eq (congrArg (List.Forall₂ · members named) (funext₂ fun member entry => ?_))
  rw [Option.map_eq_some_iff, eq_iff_iff]
  constructor
  · rintro ⟨chars, read, rfl⟩
    exact ⟨characters?_eq_some.mp read, rfl⟩
  · rintro ⟨denotes, same⟩
    exact ⟨entry.1, characters?_eq_some.mpr denotes, by rw [same]⟩

private theorem exists_named (legible : Legible members) : ∃ named, Named members named := by
  induction members with
  | nil => exact ⟨[], .nil⟩
  | cons member members ih =>
    obtain ⟨⟨chars, denotes⟩, others⟩ := List.forall_mem_cons.mp legible
    obtain ⟨named, rest⟩ := ih others
    exact ⟨(chars, member.2) :: named, .cons ⟨denotes, rfl⟩ rest⟩

private theorem Named.legible (h : Named members named) : Legible members := by
  induction h with
  | nil => exact List.forall_mem_nil _
  | cons first _ ih => exact List.forall_mem_cons.mpr ⟨⟨_, first.1⟩, ih⟩

private theorem only?_eq_some_iff {name : String} {v : Value} :
    Value.only? named name = some v ↔
      ∃ chars, named.filter (fun entry => entry.1 == name.toList) = [(chars, v)] := by
  rw [Value.only?]
  split
  · rename_i chars w alone
    simp [alone, eq_comm]
  · rename_i other
    constructor
    · intro h
      cases h
    · rintro ⟨chars, alone⟩
      exact absurd alone (other chars v)

private theorem Named.only?_eq_some (h : Named members named) {name : String} {v : Value} :
    Value.only? named name = some v ↔ Once members name v := by
  have kept : Named (called name members) (named.filter fun entry => entry.1 == name.toList) := by
    refine List.rel_filter ?_ h
    rintro member entry ⟨denotes, -⟩
    simp only [decide_eq_true_eq, beq_iff_eq]
    exact ⟨denotes.unique, fun same => same ▸ denotes⟩
  rw [only?_eq_some_iff, Once]
  constructor
  · rintro ⟨chars, alone⟩
    rw [alone] at kept
    obtain ⟨member, rest, ⟨-, rfl⟩, ended, alone⟩ := List.forall₂_cons_right_iff.mp kept
    obtain rfl := List.forall₂_nil_right_iff.mp ended
    exact ⟨member.1, alone⟩
  · rintro ⟨raw, alone⟩
    rw [alone] at kept
    obtain ⟨entry, rest, ⟨-, rfl⟩, ended, alone⟩ := List.forall₂_cons_left_iff.mp kept
    obtain rfl := List.forall₂_nil_left_iff.mp ended
    exact ⟨entry.1, alone⟩

/-- A record is read if, and only if, the value holds it. -/
theorem record?_eq_some {names : List String} {v : Value} {values : List Value} :
    v.record? names = some values ↔ Record names v values := by
  constructor
  · intro h
    cases v with
    | array elements =>
      obtain ⟨whole, same⟩ := Option.ite_none_right_eq_some.mp h
      cases same
      exact .array whole
    | object members =>
      obtain ⟨named, legible, found⟩ := Option.bind_eq_some_iff.mp h
      rw [namedMembers?_eq_some] at legible
      exact .object legible.legible
        ((mapM_eq_some.mp found).imp fun name v => legible.only?_eq_some.mp)
    | _ => cases h
  · intro h
    cases h with
    | array whole => exact if_pos whole
    | object legible fields =>
      obtain ⟨named, h⟩ := exists_named legible
      exact Option.bind_eq_some_iff.mpr ⟨named, namedMembers?_eq_some.mpr h,
        mapM_eq_some.mpr (fields.imp fun name v => h.only?_eq_some.mpr)⟩

end Reading

/-- The value stands for the field, by its place in an array or by its name in an object. -/
inductive Stands (names : List String) (name : String) (v : Value) : Value → Prop
  | element {values : List Value} (place : (name, v) ∈ names.zip values) :
      Stands names name v (.array values)
  | member {members : List (Bytes × Value)} {raw : Bytes} (known : name ∈ names)
      (mem : (raw, v) ∈ members) (denotes : Denotes raw name.toList) :
      Stands names name v (.object members)

section Places
variable {names : List String} {name : String} {values : List Value} {v whole : Value}

theorem exists_once {members : List (Bytes × Value)}
    (fields : List.Forall₂ (Once members) names values) (known : name ∈ names) :
    ∃ w, (name, w) ∈ names.zip values ∧ Once members name w := by
  induction fields with
  | nil => cases known
  | cons first _ ih =>
    rcases List.mem_cons.mp known with rfl | known
    · exact ⟨_, List.mem_cons_self, first⟩
    · obtain ⟨w, place, once⟩ := ih known
      exact ⟨w, List.mem_cons_of_mem _ place, once⟩

/-- What stands for a field is the value of the field. -/
theorem Record.mem_zip (record : Record names whole values) (h : Stands names name v whole) :
    (name, v) ∈ names.zip values := by
  cases record with
  | array _ =>
    cases h with
    | element place => exact place
  | object legible fields =>
    rename_i members
    cases h with
    | member known mem denotes =>
      obtain ⟨w, place, raw, alone⟩ := exists_once fields known
      have found : (_, v) ∈ called name members :=
        List.mem_filter.mpr ⟨mem, decide_eq_true denotes⟩
      rw [alone, List.mem_singleton] at found
      cases found
      exact place

end Places

/-- The values are the same, but for the case of letters if they are texts. -/
inductive Recased : Value → Value → Prop
  | refl (v : Value) : Recased v v
  | text {raw raw' : Bytes} {chars chars' : List Char} (denotes : Denotes raw chars)
      (denotes' : Denotes raw' chars') (same : chars.map Char.toLower = chars'.map Char.toLower) :
      Recased (.text raw) (.text raw')

/-- Members of the same names in the same order, with values that are the same in this way. -/
def RecasedMembers : List (Bytes × Value) → List (Bytes × Value) → Prop :=
  List.Forall₂ fun member member' => member.1 = member'.1 ∧ Recased member.2 member'.2

/-- A change of the case of letters, of the order of members, or by a member that is no field. -/
inductive Variant (names : List String) : Value → Value → Prop
  | elements {values values' : List Value} (recased : List.Forall₂ Recased values values') :
      Variant names (.array values) (.array values')
  | members {members members' : List (Bytes × Value)}
      (recased : RecasedMembers members members') :
      Variant names (.object members) (.object members')
  | order {members members' : List (Bytes × Value)} (moved : members.Perm members') :
      Variant names (.object members) (.object members')
  | added {members : List (Bytes × Value)} {raw : Bytes} {chars : List Char} (v : Value)
      (denotes : Denotes raw chars) (unknown : ∀ name ∈ names, chars ≠ name.toList) :
      Variant names (.object members) (.object ((raw, v) :: members))

section Changes
variable {names : List String} {members members' : List (Bytes × Value)} {values : List Value}

private theorem Recased.symm {v v' : Value} (h : Recased v v') : Recased v' v := by
  cases h with
  | refl => exact .refl v
  | text denotes denotes' same => exact .text denotes' denotes same.symm

private theorem fields_congr (same : ∀ name ∈ names, called name members = called name members')
    (fields : List.Forall₂ (Once members) names values) :
    List.Forall₂ (Once members') names values := by
  induction fields with
  | nil => exact .nil
  | cons first _ ih =>
    obtain ⟨here, others⟩ := List.forall_mem_cons.mp same
    rw [Once, here] at first
    exact .cons first (ih others)

private theorem Record.order (moved : members.Perm members')
    (h : Record names (.object members) values) : Record names (.object members') values := by
  cases h with
  | object legible fields =>
    refine .object (fun member mem => legible member (moved.mem_iff.mpr mem))
      (fields.imp fun name v => ?_)
    rintro ⟨raw, alone⟩
    have found := moved.filter fun member => Denotes member.1 name.toList
    rw [called] at alone
    rw [alone] at found
    exact ⟨raw, List.singleton_perm.mp found |>.symm⟩

/-- A member of another name is not there for the fields. -/
private theorem Record.added_iff {raw : Bytes} {chars : List Char} {v : Value}
    (denotes : Denotes raw chars) (unknown : ∀ name ∈ names, chars ≠ name.toList) :
    Record names (.object ((raw, v) :: members)) values ↔
      Record names (.object members) values := by
  have same : ∀ name ∈ names, called name ((raw, v) :: members) = called name members :=
    fun name mem => List.filter_cons_of_neg fun called =>
      unknown name mem (denotes.unique (of_decide_eq_true called))
  constructor
  · rintro (_ | ⟨legible, fields⟩)
    exact .object (List.forall_mem_cons.mp legible).2 (fields_congr same fields)
  · rintro (_ | ⟨legible, fields⟩)
    exact .object (List.forall_mem_cons.mpr ⟨⟨chars, denotes⟩, legible⟩)
      (fields_congr (fun name mem => (same name mem).symm) fields)

private theorem RecasedMembers.symm (h : RecasedMembers members members') :
    RecasedMembers members' members :=
  List.Forall₂.flip (h.imp fun _ _ recased => ⟨recased.1.symm, recased.2.symm⟩)

private theorem RecasedMembers.called (h : RecasedMembers members members') (name : String) :
    RecasedMembers (called name members) (called name members') := by
  refine List.rel_filter ?_ h
  rintro member member' ⟨same, -⟩
  simp only [same]

private theorem Once.recased {name : String} {v : Value} (h : Once members name v)
    (recased : RecasedMembers members members') : ∃ v', Once members' name v' ∧ Recased v v' := by
  obtain ⟨raw, alone⟩ := h
  have kept := recased.called name
  rw [alone] at kept
  obtain ⟨member, rest, ⟨-, same⟩, ended, alone⟩ := List.forall₂_cons_left_iff.mp kept
  obtain rfl := List.forall₂_nil_left_iff.mp ended
  exact ⟨member.2, ⟨member.1, alone⟩, same⟩

private theorem RecasedMembers.legible (h : RecasedMembers members members')
    (legible : Legible members) : Legible members' := by
  induction h with
  | nil => exact legible
  | cons first _ ih =>
    obtain ⟨here, others⟩ := List.forall_mem_cons.mp legible
    exact List.forall_mem_cons.mpr ⟨first.1 ▸ here, ih others⟩

private theorem RecasedMembers.fields (h : RecasedMembers members members')
    (fields : List.Forall₂ (Once members) names values) : ∃ values',
      List.Forall₂ (Once members') names values' ∧ List.Forall₂ Recased values values' := by
  induction fields with
  | nil => exact ⟨[], .nil, .nil⟩
  | cons first _ ih =>
    obtain ⟨v', first', same⟩ := first.recased h
    obtain ⟨values', rest', others⟩ := ih
    exact ⟨v' :: values', .cons first' rest', .cons same others⟩

/-- The record stays, up to the case of letters in its values. -/
theorem Variant.record {v v' : Value} (h : Variant names v v') (record : Record names v values) :
    ∃ values', Record names v' values' ∧ List.Forall₂ Recased values values' := by
  have same : List.Forall₂ Recased values values := List.forall₂_same.mpr fun v _ => .refl v
  cases h with
  | elements recased =>
    cases record with
    | array whole => exact ⟨_, .array (recased.length_eq.symm.trans whole), recased⟩
  | members recased =>
    cases record with
    | object legible fields =>
      obtain ⟨values', fields', changed⟩ := recased.fields fields
      exact ⟨values', .object (recased.legible legible) fields', changed⟩
  | order moved => exact ⟨values, record.order moved, same⟩
  | added v denotes unknown =>
    exact ⟨values, (Record.added_iff denotes unknown).mpr record, same⟩

/-- No change makes a record. -/
theorem Variant.record_of_record {v v' : Value} (h : Variant names v v')
    (record : Record names v' values) :
    ∃ values', Record names v values' ∧ List.Forall₂ Recased values values' := by
  cases h with
  | elements recased =>
    have back := List.Forall₂.flip (recased.imp fun _ _ => Recased.symm)
    have undone : Variant names _ _ := .elements back
    exact undone.record record
  | members recased =>
    have undone : Variant names _ _ := .members recased.symm
    exact undone.record record
  | order moved =>
    have undone : Variant names _ _ := .order moved.symm
    exact undone.record record
  | added v denotes unknown =>
    exact ⟨values, (Record.added_iff denotes unknown).mp record,
      List.forall₂_same.mpr fun v _ => .refl v⟩

end Changes
end DecryptorNode.Network.Json
