import Mathlib.Data.List.Basic
import UsageOrder.Text.Basic

/-!
# Pieces between marks

A text is cut at the occurrences of a mark.  The pieces have no mark in them
(`mark_not_mem_of_mem_pieces`), and a text that is joined from pieces without the mark is cut into
these pieces again (`pieces_intercalate`).  Joining the pieces of a text gives the text
(`intercalate_pieces`).
-/

namespace UsageOrder
namespace Text

theorem mem_of_mem_pieces {mark c : Char} {text piece : Text} (hpiece : piece ∈ text.pieces mark)
    (hc : c ∈ piece) : c ∈ text := by
  induction text generalizing piece with
  | nil =>
    obtain rfl := List.mem_singleton.1 hpiece
    exact hc
  | cons first rest ih =>
    rw [pieces] at hpiece
    split_ifs at hpiece with hmark
    · rcases List.mem_cons.1 hpiece with rfl | hpiece
      · exact absurd hc List.not_mem_nil
      · exact List.mem_cons_of_mem first (ih hpiece hc)
    · split at hpiece
      · obtain rfl := List.mem_singleton.1 hpiece
        obtain rfl := List.mem_singleton.1 hc
        exact List.mem_cons_self ..
      · rename_i head tail heq
        rcases List.mem_cons.1 hpiece with rfl | hpiece
        · rcases List.mem_cons.1 hc with rfl | hc
          · exact List.mem_cons_self ..
          · exact List.mem_cons_of_mem first (ih (heq ▸ List.mem_cons_self ..) hc)
        · exact List.mem_cons_of_mem first (ih (heq ▸ List.mem_cons_of_mem _ hpiece) hc)

theorem pieces_of_not_mem {mark : Char} {text : Text} (h : mark ∉ text) :
    text.pieces mark = [text] := by
  induction text with
  | nil => rfl
  | cons first rest ih =>
    obtain ⟨hfirst, hrest⟩ := not_or.1 (List.mem_cons.not.1 h)
    rw [pieces, if_neg (Ne.symm hfirst), ih hrest]

/-- No piece has the mark in it. -/
theorem mark_not_mem_of_mem_pieces {mark : Char} {text piece : Text}
    (h : piece ∈ text.pieces mark) : mark ∉ piece := by
  induction text generalizing piece with
  | nil => simp_all [pieces]
  | cons c rest ih =>
    rw [pieces] at h
    split_ifs at h with hc
    · rcases List.mem_cons.1 h with rfl | h
      · exact List.not_mem_nil
      · exact ih h
    · split at h
      · obtain rfl := List.mem_singleton.1 h
        simpa using Ne.symm hc
      · rename_i head tail heq
        rcases List.mem_cons.1 h with rfl | h
        · have hhead := ih (heq ▸ List.mem_cons_self ..)
          simp [hhead, Ne.symm hc]
        · exact ih (heq ▸ List.mem_cons_of_mem _ h)

theorem pieces_append_mark {mark : Char} {piece : Text} (h : mark ∉ piece) (rest : Text) :
    (piece ++ mark :: rest).pieces mark = piece :: rest.pieces mark := by
  induction piece with
  | nil => rw [List.nil_append, pieces, if_pos rfl]
  | cons c piece ih =>
    rw [List.mem_cons, not_or] at h
    rw [List.cons_append, pieces, if_neg (Ne.symm h.1), ih h.2]

theorem pieces_ne_nil (mark : Char) (text : Text) : text.pieces mark ≠ [] := by
  cases text with
  | nil => exact List.cons_ne_nil _ _
  | cons c rest =>
    rw [pieces]
    split_ifs
    · exact List.cons_ne_nil _ _
    · split <;> exact List.cons_ne_nil _ _

/-- The pieces of a text with the mark between each two of them are the text. -/
theorem intercalate_pieces (mark : Char) (text : Text) :
    [mark].intercalate (text.pieces mark) = text := by
  induction text with
  | nil => rfl
  | cons c rest ih =>
    rw [pieces]
    split_ifs with hc
    · rw [List.intercalate_cons_of_ne_nil (pieces_ne_nil mark rest), ih, hc]
      rfl
    · obtain ⟨piece, later, heq⟩ := List.exists_cons_of_ne_nil (pieces_ne_nil mark rest)
      rw [heq] at ih
      rw [heq]
      cases later with
      | nil =>
        rw [List.intercalate_singleton] at ih ⊢
        rw [ih]
      | cons second later =>
        rw [List.intercalate_cons_cons] at ih ⊢
        rw [← ih]
        rfl

/-- Pieces that are joined by a mark that none of them has are found again. -/
theorem pieces_intercalate {mark : Char} {texts : List Text} (h : ∀ text ∈ texts, mark ∉ text)
    (hsome : texts ≠ []) : Text.pieces mark ([mark].intercalate texts) = texts := by
  induction texts with
  | nil => exact absurd rfl hsome
  | cons first texts ih =>
    obtain ⟨hfirst, htexts⟩ := List.forall_mem_cons.1 h
    cases texts with
    | nil => rw [List.intercalate_singleton, pieces_of_not_mem hfirst]
    | cons second texts =>
      rw [List.intercalate_cons_cons, List.append_assoc, List.singleton_append,
        pieces_append_mark hfirst, ih htexts (List.cons_ne_nil _ _)]

end Text
end UsageOrder
