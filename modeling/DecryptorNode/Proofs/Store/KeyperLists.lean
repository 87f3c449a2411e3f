import DecryptorNode.Store.KeyperList
import Mathlib.Data.Set.Function

/-! Lists of texts in one text. Commas separate, and nothing else does: what is read is what each
text would be read as, one after the other. So texts that are not empty and have no comma come back
as they were, and other lists do not. -/
namespace DecryptorNode.Store.KeyperList
variable {text : List Char}

private theorem pieces_eq_splitOn (text : List Char) : pieces text = text.splitOn ',' := by
  induction text with
  | nil => rfl
  | cons c rest ih =>
    rw [List.splitOn_cons_eq_if_modifyHead, pieces, ← ih]
    by_cases comma : c = ','
    · rw [if_pos comma, if_pos (beq_iff_eq.mpr comma)]
    · rw [if_neg comma, if_neg (mt beq_iff_eq.mp comma)]
      cases first : pieces rest with
      | nil => exact absurd (ih.symm.trans first) (List.splitOn_ne_nil _ _)
      | cons piece others => rfl

/-- A comma ends one piece and begins the next. -/
private theorem pieces_append_comma (text others : List Char) :
    pieces (text ++ ',' :: others) = pieces text ++ pieces others := by
  rw [pieces_eq_splitOn, pieces_eq_splitOn, pieces_eq_splitOn, List.splitOn_append_cons_self]

private theorem pieces_of_plain (plain : ',' ∉ text) : pieces text = [text] := by
  rw [pieces_eq_splitOn, List.splitOn_eq_singleton plain]

private theorem comma_notMem_of_mem_pieces {piece : List Char} (h : piece ∈ pieces text) :
    ',' ∉ piece := by
  induction text generalizing piece with
  | nil =>
    rw [List.mem_singleton.mp h]
    exact List.not_mem_nil
  | cons c rest ih =>
    unfold pieces at h
    split at h
    · rcases List.mem_cons.mp h with rfl | later
      · exact List.not_mem_nil
      · exact ih later
    · rename_i other
      split at h
      · rw [List.mem_singleton.mp h]
        exact mt List.mem_singleton.mp (Ne.symm other)
      · rename_i first others parts
        rcases List.mem_cons.mp h with rfl | later
        · have inside : ',' ∉ first := ih (parts ▸ List.mem_cons_self)
          exact mt List.mem_cons.mp (not_or.mpr ⟨Ne.symm other, inside⟩)
        · exact ih (parts ▸ List.mem_cons_of_mem _ later)

private theorem split_append_comma (text others : List Char) :
    split (text ++ ',' :: others) = split text ++ split others := by
  rw [split, pieces_append_comma, List.filter_append, split, split]

private theorem split_of_plain (plain : ',' ∉ text) (present : text ≠ []) :
    split text = [text] := by
  rw [split, pieces_of_plain plain]
  exact List.filter_eq_self.mpr fun piece mem => by
    rw [List.mem_singleton.mp mem]
    exact decide_eq_true present

private theorem split_join (texts : List (List Char)) :
    split (join texts) = texts.flatMap split := by
  induction texts using join.induct with
  | case1 => rfl
  | case2 text => simp [join]
  | case3 text rest more ih => rw [join.eq_3 _ _ more, split_append_comma, ih, List.flatMap_cons]

private theorem join_eq_intercalate (texts : List (List Char)) :
    join texts = [','].intercalate texts := by
  induction texts using join.induct with
  | case1 => rfl
  | case2 text => rw [join, List.intercalate_singleton]
  | case3 text rest more ih =>
    obtain ⟨next, others, rfl⟩ := List.exists_cons_of_ne_nil more
    rw [join.eq_3 _ _ more, ih, List.intercalate_cons_cons, List.append_assoc,
      List.singleton_append]

private theorem encode_eq_intercalate (texts : List String) :
    encode texts = ",".intercalate texts := by
  rw [encode, join_eq_intercalate, ← String.toList_inj, String.toList_ofList,
    String.toList_intercalate]
  rfl

private theorem decode_eq_splitOn (text : String) :
    decode text = ((text.toList.splitOn ',').filter (· ≠ [])).map String.ofList := by
  rw [decode, split, pieces_eq_splitOn]

/-- Reading the written list reads each of its texts. -/
theorem decode_encode (texts : List String) : decode (encode texts) = texts.flatMap decode := by
  rw [decode, encode, String.toList_ofList, split_join, List.flatMap_map, List.map_flatMap]
  rfl

/-- A text that is one piece: it has no comma and is not empty. -/
def Plain (text : String) : Prop := ',' ∉ text.toList ∧ text.toList ≠ []

instance (text : String) : Decidable (Plain text) := inferInstanceAs (Decidable (_ ∧ _))

theorem decode_encode_of_plain {texts : List String} (plain : ∀ text ∈ texts, Plain text) :
    decode (encode texts) = texts := by
  rw [decode_encode]
  induction texts with
  | nil => rfl
  | cons text rest ih =>
    obtain ⟨⟨single, present⟩, others⟩ := List.forall_mem_cons.mp plain
    have whole : decode text = [text] := by
      rw [decode, split_of_plain single present, List.map_singleton, String.ofList_toList]
    rw [List.flatMap_cons, whole, ih others, List.singleton_append]

/-- Whatever the text is, what is read from it is plain. -/
theorem plain_of_mem_decode {text piece : String} (h : piece ∈ decode text) : Plain piece := by
  obtain ⟨chars, part, rfl⟩ := List.mem_map.mp h
  obtain ⟨inside, present⟩ := List.mem_filter.mp part
  rw [Plain, String.toList_ofList]
  exact ⟨comma_notMem_of_mem_pieces inside, of_decide_eq_true present⟩

private theorem leftInvOn_encode :
    Set.LeftInvOn decode encode {texts | ∀ text ∈ texts, Plain text} :=
  fun _ plain => decode_encode_of_plain plain

/-- A list is written with commas between its texts. Reading that gives, text by text, the pieces
between commas that are not empty. It gives the list that was written if each text of this list is
one piece, and only then; different lists of that kind are written differently. What has been read
once is what is read again after it is written. -/
theorem list_codec_exact :
    (∀ texts : List String, encode texts = ",".intercalate texts ∧
      decode (encode texts) = texts.flatMap (fun text =>
        ((text.toList.splitOn ',').filter (· ≠ [])).map String.ofList) ∧
      (decode (encode texts) = texts ↔ ∀ text ∈ texts, Plain text)) ∧
    Set.InjOn encode {texts | ∀ text ∈ texts, Plain text} ∧
    ∀ text : String, decode (encode (decode text)) = decode text := by
  refine ⟨fun texts => ⟨encode_eq_intercalate texts, ?_, ?_⟩, leftInvOn_encode.injOn,
    fun text => decode_encode_of_plain fun _ => plain_of_mem_decode⟩
  · rw [decode_encode]
    exact congrArg texts.flatMap (funext decode_eq_splitOn)
  · refine ⟨fun same text mem => ?_, decode_encode_of_plain⟩
    rw [← same] at mem
    exact plain_of_mem_decode mem

/-- Empty texts and empty pieces are lost, and a comma inside a text parts it. Two plain texts are
not written as they are in the other order. -/
theorem list_codec_exact_gaps :
    decode (encode ["", "0xB,,0xA", "0xB"]) = ["0xB", "0xA", "0xB"] ∧
    encode ["0xB", "0xA"] ≠ encode ["0xA", "0xB"] := by
  obtain ⟨reads, injective, -⟩ := list_codec_exact
  refine ⟨(reads _).2.1.trans (by decide), injective.ne ?_ ?_ (by decide)⟩
  · decide
  · decide

end DecryptorNode.Store.KeyperList
