import Mathlib.Data.List.TakeDrop
import Mathlib.Data.List.TakeWhile
import DecryptorNode.Config.Reader
import DecryptorNode.Config.Variables

/-! Which texts stand for themselves. A text that is read as a value is either left as it is or gets
shorter, for quotes and white space go, or it stands for something that is no text. -/
namespace DecryptorNode

namespace Text
variable {cs body rest out : List Char}

private theorem sublist_dropWhile (p : Char → Bool) (cs : List Char) :
    (cs.dropWhile p).Sublist cs :=
  (List.dropWhile_suffix p).sublist

private theorem sublist_trim (cs : List Char) : (trim cs).Sublist cs := by
  have inner := (sublist_dropWhile isBlank (cs.dropWhile isBlank).reverse).reverse
  rw [List.reverse_reverse] at inner
  exact inner.trans (sublist_dropWhile isBlank cs)

/-- Nothing is dropped if nothing is dropped first. -/
private theorem dropWhile_eq_self_iff (p : Char → Bool) :
    cs.dropWhile p = cs ↔ ∀ c ∈ cs.head?, p c = false := by
  cases cs <;> simp [List.dropWhile_eq_self_iff]

/-- Nothing is trimmed off a text with no white space at its ends. -/
private theorem trim_eq_self_iff :
    trim cs = cs ↔ (∀ c ∈ cs.head?, isBlank c = false) ∧ ∀ c ∈ cs.getLast?, isBlank c = false := by
  rw [← List.head?_reverse, ← dropWhile_eq_self_iff, ← dropWhile_eq_self_iff]
  constructor
  · intro same
    have front : cs.dropWhile isBlank = cs := by
      refine (sublist_dropWhile isBlank cs).eq_of_length_le ?_
      have inner := (sublist_dropWhile isBlank (cs.dropWhile isBlank).reverse).length_le
      rw [List.length_reverse] at inner
      have whole := congrArg List.length same
      rw [trim, List.length_reverse] at whole
      omega
    refine ⟨front, ?_⟩
    rw [trim, front] at same
    rw [← List.reverse_reverse (cs.reverse.dropWhile isBlank), same]
  · rintro ⟨front, back⟩
    rw [trim, front, back, List.reverse_reverse]

namespace Quoted

/-- What is inside the quotes and what is after them make up the text, with the closing quote. -/
private theorem length_of_scan (h : scan cs = some (body, rest)) :
    body.length + rest.length + 1 = cs.length := by
  fun_induction scan cs generalizing body rest with
  | case1 => cases h
  | case2 after =>
    cases h
    simp
  | case3 _ _ ih | case4 _ _ _ _ ih =>
    obtain ⟨⟨inner, more⟩, found, h⟩ := Option.map_eq_some_iff.mp h
    cases h
    have shorter := ih found
    simp only [List.length_cons]
    omega

private theorem exists_cons {first : Option Char} {later : Option (List Char)}
    (h : (do return (← first) :: (← later)) = some out) :
    ∃ c more, later = some more ∧ out = c :: more := by
  obtain ⟨c, -, h⟩ := Option.bind_eq_some_iff.mp h
  obtain ⟨more, found, h⟩ := Option.bind_eq_some_iff.mp h
  cases h
  exact ⟨c, more, found, rfl⟩

/-- An escape is no shorter than what it stands for. -/
private theorem length_of_unescape? (h : unescape? cs = some out) : out.length ≤ cs.length := by
  fun_induction unescape? cs generalizing out with
  | case1 =>
    cases h
    exact Nat.le_refl _
  | case2 c rest other plain ih =>
    obtain ⟨more, found, rfl⟩ := Option.map_eq_some_iff.mp h
    exact Nat.succ_le_succ (ih found)
  | case4 _ _ _ _ _ _ rest ih | case5 _ _ _ _ _ _ _ _ _ _ rest ih | case6 _ _ _ rest _ _ ih =>
    obtain ⟨c, more, found, rfl⟩ := exists_cons h
    have shorter := ih found
    simp only [List.length_cons]
    omega
  | case3 | case7 => cases h

/-- A text between quotes is shorter than with them. -/
private theorem length_of_text {s : String} (h : text cs = some (s, rest)) :
    s.length < cs.length := by
  obtain ⟨⟨body, after⟩, scanned, h⟩ := Option.bind_eq_some_iff.mp h
  obtain ⟨inner, unescaped, h⟩ := Option.bind_eq_some_iff.mp h
  cases h
  have whole := length_of_scan scanned
  have within := length_of_unescape? unescaped
  rw [String.length_ofList]
  omega

end Quoted
end Text

namespace Config.Literal
open Text (Scan trim isBlank sublist_trim sublist_dropWhile)
variable {cs rest : List Char} {v : Value} {written meant : String}

/-- What the front of a text is read as. -/
inductive Front (cs : List Char) : Value → List Char → Prop where
  | flag (b : Bool) {rest : List Char} (word : cs = (toString b).toList ++ rest) :
      Front cs (.flag b) rest
  | table (entries : Entries) {body rest : List Char} (mark : cs = '{' :: body) :
      Front cs (.table entries) rest
  | list (values : List Value) {body rest : List Char} (mark : cs = '[' :: body) :
      Front cs (.list values) rest
  | quoted {s : String} {body rest : List Char} (mark : cs = '"' :: body)
      (inside : Text.Quoted.text body = some (s, rest)) : Front cs (.text s) rest
  | letter {c : Char} {rest : List Char} (marks : cs = '\'' :: c :: '\'' :: rest) :
      Front cs (.letter c) rest
  | bare {found rest : List Char} (parted : cs.span (fun c => !isMark c) = (found, rest)) :
      Front cs (bare (trim found)) rest

private theorem after?_eq_some {word : List Char} (h : Text.after? word cs = some rest) :
    cs = word ++ rest := by
  obtain ⟨begins, same⟩ := Option.ite_none_right_eq_some.mp h
  cases same
  exact (List.prefix_iff_eq_append.mp (List.isPrefixOf_iff_prefix.mp begins)).symm

private theorem front_cases {inner : Scan Value} (h : front inner cs = some (v, rest)) :
    Front cs v rest := by
  unfold front at h
  split at h
  · rename_i after
    cases h
    exact .flag true (after?_eq_some after)
  · rename_i after
    cases h
    exact .flag false (after?_eq_some after)
  · split at h
    · obtain ⟨⟨members, more⟩, -, h⟩ := Option.bind_eq_some_iff.mp h
      cases h
      exact .table _ rfl
    · obtain ⟨⟨values, more⟩, -, h⟩ := Option.bind_eq_some_iff.mp h
      cases h
      exact .list _ rfl
    · obtain ⟨⟨s, more⟩, inside, h⟩ := Option.bind_eq_some_iff.mp h
      cases h
      exact .quoted rfl inside
    · cases h
      exact .letter rfl
    · cases h
    · cases h
      exact .bare rfl

/-- A text that is a number is none any more, and any other is left as it is. -/
private theorem bare_cases (cs : List Char) :
    bare cs = .text (String.ofList cs) ∨
      bare cs ≠ .null ∧ ∀ t, Reader.text .layers (bare cs) ≠ .ok t := by
  unfold bare
  dsimp only
  split
  · exact .inr ⟨nofun, nofun⟩
  · split
    · split
      · split
        · exact .inr ⟨nofun, nofun⟩
        · exact .inl rfl
      · split
        · exact .inr ⟨nofun, nofun⟩
        · exact .inl rfl
    · exact .inl rfl

private theorem bare_of_unnumbered (fraction : isFraction cs = false)
    (number : Text.decimal? (Text.signed cs).2 = none) : bare cs = .text (String.ofList cs) := by
  unfold bare
  dsimp only
  rw [fraction, number]
  rfl

/-- A text is left as it is, unless all of it is read as a value. -/
theorem parse_cases (written : String) : parse written = .text written ∨
    ∃ v rest, Front (skipGap written.toList) v rest ∧ skipGap rest = [] ∧ parse written = v := by
  unfold parse
  dsimp only
  split
  · rename_i v scanned
    obtain ⟨⟨found, rest⟩, front, ended⟩ := Option.bind_eq_some_iff.mp scanned
    obtain ⟨rfl, done⟩ := Prod.mk.inj (Option.some.inj ended)
    exact .inr ⟨_, rest, front_cases front, done, rfl⟩
  · exact .inl rfl

/-- No text stands for nothing. -/
theorem parse_ne_null (written : String) : parse written ≠ .null := by
  rcases parse_cases written with whole | ⟨v, rest, front, -, whole⟩
  · rw [whole]
    exact nofun
  · rw [whole]
    cases front with
    | bare parted =>
      rcases bare_cases (trim _) with kept | ⟨some, -⟩
      · rw [kept]
        exact nofun
      · exact some
    | _ => exact nofun

/-- A text that stands for another one is longer than that. -/
theorem itself_or_shorter (h : Reader.text .layers (parse written) = .ok meant) :
    parse written = .text written ∨ meant.length < written.length := by
  rcases parse_cases written with whole | ⟨v, rest, front, -, whole⟩
  · exact .inl whole
  · rw [whole] at h ⊢
    have inside : (skipGap written.toList).Sublist written.toList := sublist_dropWhile isGap _
    have shorter := inside.length_le
    rw [String.length_toList] at shorter
    generalize skipGap written.toList = cs at front inside shorter
    cases front with
    | flag | table | list => cases h
    | quoted mark found =>
      cases h
      subst mark
      have within := Text.Quoted.length_of_text found
      rw [List.length_cons] at shorter
      exact .inr (by omega)
    | letter marks =>
      cases h
      subst marks
      simp only [List.length_cons] at shorter
      rw [String.length_singleton]
      exact .inr (by omega)
    | @bare found rest parted =>
      rcases bare_cases (trim found) with kept | ⟨-, other⟩
      · rw [kept] at h ⊢
        cases h
        rw [List.span_eq_takeWhile_dropWhile] at parted
        obtain ⟨rfl, -⟩ := Prod.mk.inj parted
        have part : (trim (cs.takeWhile fun c => !isMark c)).Sublist written.toList :=
          ((sublist_trim _).trans (List.takeWhile_prefix _).sublist).trans inside
        rcases Nat.lt_or_eq_of_le part.length_le with less | same
        · rw [String.length_ofList, ← String.length_toList]
          exact .inr less
        · rw [part.eq_of_length same, String.ofList_toList]
          exact .inl rfl
      · exact absurd h (other meant)

/-- A text stands for itself among white space only if there is none. -/
theorem text_trim_iff :
    Reader.text .layers (parse (String.ofList (trim written.toList))) = .ok written ↔
      trim written.toList = written.toList ∧ parse written = .text written := by
  constructor
  · intro h
    rcases itself_or_shorter h with same | less
    · rw [same] at h
      have whole : String.ofList (trim written.toList) = written := Except.ok.inj h
      rw [whole] at same
      refine ⟨?_, same⟩
      rw [← String.toList_ofList (l := trim written.toList), whole]
    · rw [String.length_ofList, ← String.length_toList] at less
      have part := (sublist_trim written.toList).length_le
      omega
  · rintro ⟨trimmed, itself⟩
    rw [trimmed, String.ofList_toList, itself]
    rfl

/-- Texts that look like nothing but a text. -/
structure Plain (written : String) : Prop where
  trimmed : trim written.toList = written.toList
  unmarked : ∀ c ∈ written.toList.head?, c ∉ ['{', '[', '"', '\'']
  word : written ≠ "true" ∧ written ≠ "false"
  unnumbered : isFraction written.toList = false ∧
    Text.decimal? (Text.signed written.toList).2 = none

private theorem isBlank_of_isGap {c : Char} (h : isGap c = true) : isBlank c = true := by
  simp only [isGap, Bool.or_eq_true, decide_eq_true_eq] at h
  rcases h with (((rfl | rfl) | rfl) | rfl) | rfl <;> decide

/-- What is left after a value has no gap at its end, so if it is all gaps it is nothing. -/
private theorem eq_nil_of_gaps {cs rest : List Char} (trimmed : trim (cs ++ rest) = cs ++ rest)
    (gaps : skipGap rest = []) : rest = [] := by
  cases last : rest.getLast? with
  | none => exact List.getLast?_eq_none_iff.mp last
  | some c =>
    have gap : isGap c = true :=
      List.dropWhile_eq_nil_iff.mp gaps c (List.mem_of_getLast? last)
    have ended : c ∈ (cs ++ rest).getLast? := by
      rw [List.getLast?_append, last]
      rfl
    have clear := (Text.trim_eq_self_iff.mp trimmed).2 c ended
    rw [isBlank_of_isGap gap] at clear
    cases clear

/-- A plain text stands for itself. -/
theorem parse_of_plain (h : Plain written) : parse written = .text written := by
  rcases parse_cases written with whole | ⟨v, rest, front, ended, whole⟩
  · exact whole
  · have begun : skipGap written.toList = written.toList := by
      refine (Text.dropWhile_eq_self_iff isGap).mpr fun c first => ?_
      have clear := (Text.trim_eq_self_iff.mp h.trimmed).1 c first
      cases gap : isGap c with
      | false => rfl
      | true =>
        rw [isBlank_of_isGap gap] at clear
        cases clear
    have trimmed := h.trimmed
    have unmarked := h.unmarked
    rw [whole]
    rw [begun] at front
    cases front with
    | flag b word =>
      rw [word] at trimmed
      cases eq_nil_of_gaps trimmed ended
      rw [List.append_nil] at word
      have spelled : written = toString b := String.toList_inj.mp word
      cases b with
      | false => exact absurd spelled h.word.2
      | true => exact absurd spelled h.word.1
    | table _ mark | list _ mark | quoted mark _ | letter mark =>
      rw [mark] at unmarked
      exact absurd (by decide) (unmarked _ rfl)
    | @bare found rest parted =>
      rw [List.span_eq_takeWhile_dropWhile] at parted
      obtain ⟨rfl, same⟩ := Prod.mk.inj parted
      have all : (written.toList.takeWhile fun c => !isMark c) ++ rest = written.toList :=
        same ▸ List.takeWhile_append_dropWhile
      rw [← all] at trimmed
      cases eq_nil_of_gaps trimmed ended
      rw [List.append_nil] at all
      rw [all, h.trimmed, bare_of_unnumbered h.unnumbered.1 h.unnumbered.2, String.ofList_toList]

end Config.Literal
end DecryptorNode
