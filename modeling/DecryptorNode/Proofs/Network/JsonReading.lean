import DecryptorNode.Proofs.Network.JsonSpelling

/-! How values are read. Every value has its own sequence of tokens, and the machine that reads
tokens comes to the end with a value exactly when it has read that sequence, however deep arrays and
objects are nested. What the machine has read is told by its state, with all that is open in it. -/
namespace DecryptorNode.Network.Json

def separated : List (List Token) → List Token
  | [] => []
  | [part] => part
  | part :: next :: rest => part ++ .comma :: separated (next :: rest)

namespace Value

mutual

def tokens : Value → List Token
  | .object members => .openObject :: (separated (memberTokens members) ++ [.closeObject])
  | .array values => .openArray :: (separated (elementTokens values) ++ [.closeArray])
  | .text t => [.text t]
  | .integer negative n => [.integer negative n]
  | .fraction => [.fraction]
  | .literal l => [.literal l]

def elementTokens : List Value → List (List Token)
  | [] => []
  | v :: rest => v.tokens :: elementTokens rest

def memberTokens : List (Bytes × Value) → List (List Token)
  | [] => []
  | (name, v) :: rest => (.text name :: .colon :: v.tokens) :: memberTokens rest

end

private theorem elementTokens_concat (values : List Value) (v : Value) :
    elementTokens (values ++ [v]) = elementTokens values ++ [v.tokens] := by
  induction values with
  | nil => simp [elementTokens]
  | cons first rest ih => rw [List.cons_append, elementTokens, ih, elementTokens, List.cons_append]

private theorem memberTokens_concat (members : List (Bytes × Value)) (name : Bytes) (v : Value) :
    memberTokens (members ++ [(name, v)]) =
      memberTokens members ++ [.text name :: .colon :: v.tokens] := by
  induction members with
  | nil => simp [memberTokens]
  | cons first rest ih => rw [List.cons_append, memberTokens, ih, memberTokens, List.cons_append]

private theorem elementTokens_ne_nil {values : List Value} (present : values ≠ []) :
    elementTokens values ≠ [] := by
  cases values with
  | nil => exact absurd rfl present
  | cons v rest => exact List.cons_ne_nil _ _

private theorem memberTokens_ne_nil {members : List (Bytes × Value)} (present : members ≠ []) :
    memberTokens members ≠ [] := by
  cases members with
  | nil => exact absurd rfl present
  | cons member rest => exact List.cons_ne_nil _ _

/-- A value begins with a token that begins none of the other things there are. -/
private theorem exists_begin (v : Value) : ∃ t rest, v.tokens = t :: rest ∧ t ≠ .closeArray := by
  cases v <;> exact ⟨_, _, by rw [tokens], by simp⟩

end Value

open Value (elementTokens memberTokens)

def listed (parts : List (List Token)) : List Token := parts.flatMap fun part => part ++ [.comma]

private theorem separated_concat (parts : List (List Token)) (part : List Token) :
    separated (parts ++ [part]) = listed parts ++ part := by
  induction parts with
  | nil => rfl
  | cons first rest ih =>
    have more : separated (first :: (rest ++ [part])) =
        first ++ .comma :: separated (rest ++ [part]) := by
      cases rest <;> rfl
    rw [List.cons_append, more, ih]
    simp [listed]

private theorem separated_comma {parts : List (List Token)} (present : parts ≠ []) :
    separated parts ++ [.comma] = listed parts := by
  rcases List.eq_nil_or_concat' parts with rfl | ⟨before, part, rfl⟩
  · exact absurd rfl present
  · rw [separated_concat]
    simp [listed]

section Soundness

def opened : List Frame → List Token
  | [] => []
  | .array before :: outer =>
    opened outer ++ .openArray :: listed (elementTokens before.reverse)
  | .member before name :: outer =>
    opened outer ++ .openObject :: (listed (memberTokens before.reverse) ++ [.text name, .colon])

namespace State

def said : State → List Token
  | .value outer => opened outer
  | .arrayStart outer => opened outer ++ [.openArray]
  | .arrayNext before outer =>
    opened outer ++ .openArray :: separated (elementTokens before.reverse)
  | .objectStart outer => opened outer ++ [.openObject]
  | .memberName before outer =>
    opened outer ++ .openObject :: listed (memberTokens before.reverse)
  | .colon before name outer =>
    opened outer ++ .openObject :: (listed (memberTokens before.reverse) ++ [.text name])
  | .objectNext before outer =>
    opened outer ++ .openObject :: separated (memberTokens before.reverse)
  | .finished v => v.tokens

/-- A comma or an end is awaited only after a value. -/
def Sound : State → Prop
  | .arrayNext before _ => before ≠ []
  | .objectNext before _ => before ≠ []
  | _ => True

variable {s s' : State} {t : Token} {v : Value} {outer : List Frame}

private theorem sound_deliver : (deliver v outer).Sound := by
  cases outer with
  | nil => trivial
  | cons frame outer => cases frame <;> exact List.cons_ne_nil _ _

private theorem said_deliver : (deliver v outer).said = opened outer ++ v.tokens := by
  cases outer with
  | nil => rfl
  | cons frame outer =>
    cases frame with
    | array before =>
      simp [deliver, said, opened, Value.elementTokens_concat, separated_concat]
    | member before name =>
      simp [deliver, said, opened, Value.memberTokens_concat, separated_concat]

private theorem said_begin (h : begin? outer t = some s) :
    s.Sound ∧ s.said = opened outer ++ [t] := by
  cases t <;> cases h
  all_goals first
    | exact ⟨trivial, rfl⟩
    | exact ⟨sound_deliver, said_deliver⟩

/-- A step adds the token to what was read. -/
theorem said_step (sound : s.Sound) (h : step? s t = some s') :
    s'.Sound ∧ s'.said = s.said ++ [t] := by
  unfold step? at h
  split at h
  case h_1 => exact said_begin h
  case h_3 =>
    obtain ⟨sound', read⟩ := said_begin h
    exact ⟨sound', read.trans (by simp [said, opened, elementTokens, listed])⟩
  case h_12 => cases h
  case h_4 before outer =>
    cases h
    have present := Value.elementTokens_ne_nil (mt List.reverse_eq_nil_iff.mp sound)
    exact ⟨trivial, by simp [said, opened, ← separated_comma present]⟩
  case h_10 before outer =>
    cases h
    have present := Value.memberTokens_ne_nil (mt List.reverse_eq_nil_iff.mp sound)
    exact ⟨trivial, by simp [said, ← separated_comma present]⟩
  all_goals cases h
  case h_2 | h_5 | h_6 | h_11 =>
    exact ⟨sound_deliver, said_deliver.trans
      (by simp [said, Value.tokens, elementTokens, memberTokens, separated])⟩
  all_goals exact ⟨trivial, by simp [said, opened, memberTokens, listed]⟩

private theorem said_run {tokens : List Token} (sound : s.Sound)
    (h : tokens.foldlM step? s = some s') : s'.said = s.said ++ tokens := by
  induction tokens generalizing s with
  | nil =>
    cases h
    exact (List.append_nil _).symm
  | cons t rest ih =>
    rw [List.foldlM_cons] at h
    obtain ⟨u, first, h⟩ := Option.bind_eq_some_iff.mp h
    obtain ⟨sound', read⟩ := said_step sound first
    rw [ih sound' h, read, List.append_assoc, List.singleton_append]

end State

private theorem Value.tokens_of_ofTokens? {tokens : List Token} {v : Value}
    (h : ofTokens? tokens = some v) : tokens = v.tokens := by
  obtain ⟨s, ran, ended⟩ := Option.bind_eq_some_iff.mp h
  have read := State.said_run (s := .value []) trivial ran
  cases s <;> cases ended
  exact read.symm

end Soundness

section Completeness
open State (deliver step?)

/-- Inside an array that has begun a value is read as anywhere. -/
private theorem run_arrayStart (outer : List Frame) (v : Value) (rest : List Token) :
    (v.tokens ++ rest).foldlM step? (.arrayStart outer) =
      (v.tokens ++ rest).foldlM step? (.value (.array [] :: outer)) := by
  obtain ⟨t, others, begins, other⟩ := v.exists_begin
  rw [begins, List.cons_append, List.foldlM_cons, List.foldlM_cons]
  cases t <;> first | rfl | exact absurd rfl other

mutual

/-- The tokens of a value take the machine past the value. -/
theorem run_tokens (outer : List Frame) (more : List Token) : (v : Value) →
    (v.tokens ++ more).foldlM step? (.value outer) = more.foldlM step? (deliver v outer)
  | .text t | .integer negative n | .fraction | .literal l => rfl
  | .array [] => rfl
  | .array (v :: rest) => by
    have parts : (Value.array (v :: rest)).tokens ++ more =
        .openArray :: (separated (elementTokens (v :: rest)) ++ .closeArray :: more) := by
      simp [Value.tokens]
    have begins : ∃ others, separated (elementTokens (v :: rest)) = v.tokens ++ others := by
      cases rest with
      | nil => exact ⟨[], (List.append_nil _).symm⟩
      | cons next rest => exact ⟨_, rfl⟩
    have read := run_elements outer more (v :: rest) [] (List.cons_ne_nil _ _)
    -- The machine tells the first element apart from the others, for an array may end before it.
    obtain ⟨others, begins⟩ := begins
    rw [begins, List.append_assoc] at parts read
    rw [parts]
    exact (run_arrayStart outer v _).trans read
  | .object [] => rfl
  | .object ((name, v) :: rest) => by
    have parts : (Value.object ((name, v) :: rest)).tokens ++ more =
        .openObject :: (separated (memberTokens ((name, v) :: rest)) ++ .closeObject :: more) := by
      simp [Value.tokens]
    have begins : ∃ others,
        separated (memberTokens ((name, v) :: rest)) = .text name :: others := by
      cases rest <;> exact ⟨_, rfl⟩
    have read := run_members outer more ((name, v) :: rest) [] (List.cons_ne_nil _ _)
    obtain ⟨others, begins⟩ := begins
    rw [begins] at parts read
    rw [parts]
    exact read

/-- The tokens of elements and the end take the machine past the array that they complete. -/
private theorem run_elements (outer : List Frame) (more : List Token) :
    (values before : List Value) → values ≠ [] →
    (separated (elementTokens values) ++ .closeArray :: more).foldlM step?
      (.value (.array before :: outer)) =
        more.foldlM step? (deliver (.array (before.reverse ++ values)) outer)
  | [], _, absent => absurd rfl absent
  | [v], before, _ => by
    have read := run_tokens (.array before :: outer) (.closeArray :: more) v
    have whole : (v :: before).reverse = before.reverse ++ [v] := List.reverse_cons
    rw [← whole]
    exact read
  | v :: next :: rest, before, _ => by
    have read := run_tokens (.array before :: outer)
      (.comma :: (separated (elementTokens (next :: rest)) ++ .closeArray :: more)) v
    have others := run_elements outer more (next :: rest) (v :: before) (List.cons_ne_nil _ _)
    have parts : separated (elementTokens (v :: next :: rest)) ++ .closeArray :: more = v.tokens ++
        .comma :: (separated (elementTokens (next :: rest)) ++ .closeArray :: more) := by
      simp [elementTokens, separated]
    rw [List.reverse_cons, List.append_assoc, List.singleton_append] at others
    rw [parts, read]
    exact others

/-- The tokens of members and the end take the machine past the object that they complete. -/
private theorem run_members (outer : List Frame) (more : List Token) :
    (members before : List (Bytes × Value)) → members ≠ [] →
    (separated (memberTokens members) ++ .closeObject :: more).foldlM step?
      (.memberName before outer) =
        more.foldlM step? (deliver (.object (before.reverse ++ members)) outer)
  | [], _, absent => absurd rfl absent
  | [(name, v)], before, _ => by
    have read := run_tokens (.member before name :: outer) (.closeObject :: more) v
    have whole : ((name, v) :: before).reverse = before.reverse ++ [(name, v)] := List.reverse_cons
    rw [← whole]
    exact read
  | (name, v) :: next :: rest, before, _ => by
    have read := run_tokens (.member before name :: outer)
      (.comma :: (separated (memberTokens (next :: rest)) ++ .closeObject :: more)) v
    have others := run_members outer more (next :: rest) ((name, v) :: before)
      (List.cons_ne_nil _ _)
    have parts : separated (memberTokens ((name, v) :: next :: rest)) ++ .closeObject :: more =
        .text name :: .colon :: (v.tokens ++
          .comma :: (separated (memberTokens (next :: rest)) ++ .closeObject :: more)) := by
      simp [memberTokens, separated]
    rw [List.reverse_cons, List.append_assoc, List.singleton_append] at others
    rw [parts]
    exact read.trans others

end

end Completeness

private theorem Value.ofTokens?_eq_some {tokens : List Token} {v : Value} :
    ofTokens? tokens = some v ↔ tokens = v.tokens := by
  refine ⟨tokens_of_ofTokens?, ?_⟩
  rintro rfl
  have ran := run_tokens [] [] v
  rw [List.append_nil] at ran
  rw [ofTokens?, ran]
  rfl

section Spelling

private theorem Parted.joined {tokens tokens' : List Token} {mark : Token}
    (marked : mark.isMark = true)
    (h : Parted tokens) (h' : Parted tokens') : Parted (tokens ++ mark :: tokens') :=
  List.isChain_append.mpr ⟨h, List.isChain_cons.mpr ⟨fun _ _ => .inl marked, h'⟩,
    fun _ _ _ same => .inr (Option.some.inj same ▸ marked)⟩

private theorem Parted.enclosed {tokens : List Token} {first last : Token}
    (opening : first.isMark = true)
    (closing : last.isMark = true) (h : Parted tokens) : Parted (first :: (tokens ++ [last])) :=
  List.isChain_cons.mpr ⟨fun _ _ => .inl opening,
    h.joined closing List.isChain_nil⟩

private theorem Parted.named {tokens : List Token} (name : Bytes) (h : Parted tokens) :
    Parted (.text name :: .colon :: tokens) :=
  @Parted.joined [.text name] tokens .colon rfl (List.isChain_singleton _) h

mutual

private theorem parted_tokens : (v : Value) → Parted v.tokens
  | .text _ | .integer _ _ | .fraction | .literal _ => List.isChain_singleton _
  | .array values => by
    rw [Value.tokens]
    exact (parted_elements values).enclosed rfl rfl
  | .object members => by
    rw [Value.tokens]
    exact (parted_members members).enclosed rfl rfl

private theorem parted_elements : (values : List Value) → Parted (separated (elementTokens values))
  | [] => List.isChain_nil
  | [v] => parted_tokens v
  | v :: next :: rest => (parted_tokens v).joined rfl (parted_elements (next :: rest))

private theorem parted_members :
    (members : List (Bytes × Value)) → Parted (separated (memberTokens members))
  | [] => List.isChain_nil
  | [(name, v)] => (parted_tokens v).named name
  | (name, v) :: next :: rest =>
    ((parted_tokens v).named name).joined rfl (parted_members (next :: rest))

end

/-- A payload holds a value if, and only if, it spells the value's tokens. -/
theorem Value.parse?_eq_some {payload : Bytes} {v : Value} :
    parse? payload = some v ↔ Spelled v.tokens payload := by
  rw [parse?, Option.bind_eq_some_iff]
  constructor
  · rintro ⟨tokens, scanned, made⟩
    rw [← ofTokens?_eq_some.mp made]
    exact spelled_of_tokens? scanned
  · intro spelled
    exact ⟨v.tokens, (tokens?_eq_some (parted_tokens v)).mpr spelled, ofTokens?_eq_some.mpr rfl⟩

end Spelling
end DecryptorNode.Network.Json
