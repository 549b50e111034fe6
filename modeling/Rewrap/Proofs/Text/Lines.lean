import Mathlib.Data.List.TakeWhile
import Rewrap.Text.Basic
import Rewrap.Text.WhiteSpace

/-! # Lines and blanks

The line on which a text ends, its leading blanks and its leading line break, said as pieces of the
text. -/

namespace Rewrap

theorem isWhiteSpace_of_isBlank {c : Char} (h : Text.isBlank c = true) : isWhiteSpace c = true := by
  simp only [Text.isBlank, Bool.or_eq_true, beq_iff_eq] at h
  rcases h with rfl | rfl <;> decide

namespace Text

/-- All blanks. -/
def IsBlank (t : Text) : Prop := ∀ c ∈ t, isBlank c = true

/-- All white space. -/
def IsSpace (t : Text) : Prop := ∀ c ∈ t, isWhiteSpace c = true

instance : DecidablePred IsBlank := List.decidableBAll _

instance : DecidablePred IsSpace := List.decidableBAll _

theorem isBlank_nil : IsBlank [] := by simp [IsBlank]

theorem IsBlank.isSpace {t : Text} (h : IsBlank t) : IsSpace t := fun c hc =>
  isWhiteSpace_of_isBlank (h c hc)

theorem isSpace_append {s t : Text} : IsSpace (s ++ t) ↔ IsSpace s ∧ IsSpace t := by
  simp [IsSpace, or_imp, forall_and]

theorem isBlank_append {s t : Text} : IsBlank (s ++ t) ↔ IsBlank s ∧ IsBlank t := by
  simp [IsBlank, or_imp, forall_and]

theorem isBlank_iff_all {t : Text} : IsBlank t ↔ t.all Text.isBlank = true := by
  simp [IsBlank]

theorem IsBlank.not_mem {t : Text} (h : IsBlank t) {c : Char}
    (hc : Text.isBlank c = false) : c ∉ t := by
  intro hmem
  simp [h c hmem] at hc

theorem isBlank_indent (t : Text) : IsBlank t.indent := fun _ hc => List.mem_takeWhile_imp hc

theorem indent_append_dropIndent (t : Text) : t.indent ++ t.dropIndent = t :=
  List.takeWhile_append_dropWhile

theorem indent_append_of_not_isBlank {a : Text} (h : ∃ c ∈ a, isBlank c = false) (b : Text) :
    (a ++ b).indent = a.indent := by
  induction a with
  | nil => simp at h
  | cons c a ih =>
      by_cases hc : isBlank c = true
      · obtain ⟨d, hd, hblank⟩ := h
        have hd : d ∈ a := by
          rcases List.mem_cons.mp hd with rfl | hd
          · simp [hc] at hblank
          · exact hd
        simpa [indent, hc] using ih ⟨d, hd, hblank⟩
      · simp [indent, hc]

theorem dropIndent_append {b t : Text} (hb : IsBlank b)
    (ht : ∀ c ∈ t.head?, Text.isBlank c = false) : dropIndent (b ++ t) = t := by
  unfold dropIndent
  rw [List.dropWhile_append_of_pos hb]
  cases t with
  | nil => rfl
  | cons c t => simp [ht c (by simp)]

theorem lineBreak_eq (t : Text) : t.lineBreak = ['\n'] ∨ t.lineBreak = ['\r', '\n'] := by
  unfold lineBreak
  split <;> simp

theorem isSpace_lineFeed : IsSpace ['\n'] := by decide

theorem isSpace_lineBreak (t : Text) : IsSpace t.lineBreak := by
  rcases lineBreak_eq t with h | h <;> rw [h] <;> decide

/-! ## The last line -/

theorem lastLine_append_cons {l : Text} (hl : '\n' ∉ l) (s : Text) :
    lastLine (s ++ '\n' :: l) = l := by
  have hall : ∀ c ∈ l.reverse, (c != '\n') = true := by
    intro c hc
    simp only [bne_iff_ne, ne_eq]
    rintro rfl
    exact hl (by simpa using hc)
  simp [lastLine, List.takeWhile_append_of_pos hall]

theorem lastLine_append_of_not_mem {x : Text} (hx : '\n' ∉ x) (z : Text) :
    lastLine (z ++ x) = lastLine z ++ x := by
  have hall : ∀ c ∈ x.reverse, (c != '\n') = true := by
    intro c hc
    simp only [bne_iff_ne, ne_eq]
    rintro rfl
    exact hx (by simpa using hc)
  rw [lastLine, lastLine, List.reverse_append, List.takeWhile_append_of_pos hall]
  simp

theorem exists_lastLine {t : Text} (h : '\n' ∈ t) :
    ∃ s, t = s ++ '\n' :: t.lastLine ∧ '\n' ∉ t.lastLine := by
  obtain ⟨as, bs, hrev, hno⟩ := List.eq_append_cons_of_mem (List.mem_reverse.mpr h)
  have ht : t = bs.reverse ++ '\n' :: as.reverse := by
    have := congrArg List.reverse hrev
    simpa using this
  have hno : '\n' ∉ as.reverse := by simpa using hno
  have hlast : t.lastLine = as.reverse := by
    rw [ht, lastLine_append_cons hno]
  exact ⟨bs.reverse, by rw [hlast, ← ht], by rwa [hlast]⟩

theorem lastLine_append_of_mem {x : Text} (hx : '\n' ∈ x) (z : Text) :
    lastLine (z ++ x) = lastLine x := by
  obtain ⟨s, hs, hno⟩ := exists_lastLine hx
  rw [hs, ← List.append_assoc, lastLine_append_cons hno, lastLine_append_cons hno]

theorem lastLine_suffix (t : Text) : t.lastLine <:+ t := by
  by_cases h : '\n' ∈ t
  · obtain ⟨s, hs, -⟩ := exists_lastLine h
    exact ⟨s ++ ['\n'], by simpa using hs.symm⟩
  · have := lastLine_append_of_not_mem h []
    exact ⟨[], by simpa [lastLine] using this⟩

/-! ## Line ends -/

/-- A line break, or nothing at the end of the text. -/
def IsLineEnd (e rest : Text) : Prop := e = ['\n'] ∨ e = ['\r', '\n'] ∨ (e = [] ∧ rest = [])

theorem dropLineEnd?_eq_some {t rest : Text} (h : t.dropLineEnd? = some rest) :
    ∃ e, IsLineEnd e rest ∧ t = e ++ rest := by
  unfold dropLineEnd? at h
  split at h
  · cases h
    exact ⟨[], .inr (.inr ⟨rfl, rfl⟩), rfl⟩
  · cases h
    exact ⟨['\n'], .inl rfl, rfl⟩
  · cases h
    exact ⟨['\r', '\n'], .inr (.inl rfl), rfl⟩
  · simp at h

theorem IsLineEnd.dropLineEnd? {e rest : Text} (h : IsLineEnd e rest) :
    (e ++ rest).dropLineEnd? = some rest := by
  rcases h with rfl | rfl | ⟨rfl, rfl⟩ <;> rfl

theorem IsLineEnd.dropIndent {e rest : Text} (h : IsLineEnd e rest) {b : Text} (hb : IsBlank b) :
    (b ++ (e ++ rest)).dropIndent = e ++ rest := by
  refine dropIndent_append hb ?_
  rcases h with rfl | rfl | ⟨rfl, rfl⟩ <;> simp [isBlank]

/-! ## Layout -/

/-- Blanks, or a line break `br` with the blanks that lead the next line. -/
inductive IsLayout (br : Text) : Text → Prop where
  | blank {b} (hb : IsBlank b) : IsLayout br b
  | lineBreak {b} (hb : IsBlank b) : IsLayout br (br ++ b)

theorem isLayout_self (br : Text) : IsLayout br br := by
  have h : IsLayout br (br ++ []) := .lineBreak isBlank_nil
  simpa using h

/-- The place between two texts lies between the two characters of a CRLF. -/
def SplitsCrLf (s t : Text) : Prop := s.getLast? = some '\r' ∧ t.head? = some '\n'

end Text

end Rewrap
