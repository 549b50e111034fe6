import Mathlib
import Rewrap.Proofs.Text.Lines
import Rewrap.Proofs.Text.Search

/-! # Taking occurrences out of a text

The occurrences of a pattern are marked in the text. Where they are taken out, some of them together
with their lines, nothing but white space goes with them, and every line without a mark is kept. -/

namespace Rewrap

/-! ## Lines -/

/-- The parts of a list, each up to the first element that ends one. -/
def linesBy {α : Type} (ends : α → Bool) : List α → List (List α)
  | [] => []
  | c :: t =>
      if ends c then [c] :: linesBy ends t
      else
        match linesBy ends t with
        | [] => [[c]]
        | l :: ls => (c :: l) :: ls

section Lines

variable {α β : Type} {ends : α → Bool} {u t : List α} {e : α}

theorem linesBy_append_cons (hu : ∀ c ∈ u, ends c = false) (he : ends e = true) :
    linesBy ends (u ++ e :: t) = (u ++ [e]) :: linesBy ends t := by
  induction u with
  | nil => simp [linesBy, he]
  | cons c u ih =>
      have hrest := ih fun d hd => hu d (List.mem_cons_of_mem c hd)
      simp [linesBy, hu c List.mem_cons_self, hrest]

theorem linesBy_of_open (hu : ∀ c ∈ u, ends c = false) (hne : u ≠ []) :
    linesBy ends u = [u] := by
  induction u with
  | nil => exact absurd rfl hne
  | cons c u ih =>
      have hc := hu c List.mem_cons_self
      cases u with
      | nil => simp [linesBy, hc]
      | cons d u =>
          have hrest := ih (fun f hf => hu f (List.mem_cons_of_mem c hf)) (by simp)
          rw [linesBy, hrest]
          simp [hc]

theorem linesBy_eq_nil_iff {t : List α} : linesBy ends t = [] ↔ t = [] := by
  cases t with
  | nil => simp [linesBy]
  | cons c t =>
      rw [linesBy]
      split
      · simp
      · split <;> simp

theorem flatten_linesBy (t : List α) : (linesBy ends t).flatten = t := by
  induction t with
  | nil => rfl
  | cons c t ih =>
      rw [linesBy]
      by_cases hc : ends c = true
      · simp [hc, ih]
      · cases hlines : linesBy ends t <;> simpa [hc, hlines] using ih

theorem ne_nil_of_mem_linesBy {t l : List α} (hl : l ∈ linesBy ends t) : l ≠ [] := by
  induction t generalizing l with
  | nil => simp [linesBy] at hl
  | cons c t ih =>
      rw [linesBy] at hl
      by_cases hc : ends c = true
      · rw [if_pos hc] at hl
        rcases List.mem_cons.mp hl with rfl | hl
        · simp
        · exact ih hl
      · rw [if_neg hc] at hl
        cases hlines : linesBy ends t with
        | nil =>
            rw [hlines] at hl
            obtain rfl := List.mem_singleton.mp hl
            simp
        | cons l' ls =>
            rw [hlines] at hl
            rcases List.mem_cons.mp hl with rfl | hl
            · simp
            · exact ih (by simp [hlines, hl])

theorem linesBy_map (f : β → α) (t : List β) :
    linesBy ends (t.map f) = (linesBy (ends ∘ f) t).map (List.map f) := by
  induction t with
  | nil => rfl
  | cons c t ih =>
      rw [List.map_cons, linesBy, linesBy, ih]
      by_cases hc : ends (f c) = true
      · simp [hc]
      · cases linesBy (ends ∘ f) t <;> simp [hc]

theorem linesBy_append {u : List α} (hu : ∀ c ∈ u.getLast?, ends c = true) (t : List α) :
    linesBy ends (u ++ t) = linesBy ends u ++ linesBy ends t := by
  induction u with
  | nil => rfl
  | cons c u ih =>
      by_cases hnil : u = []
      · subst hnil
        have hc : ends c = true := hu c rfl
        simp [linesBy, hc]
      · have hlast : (c :: u).getLast? = u.getLast? := by
          obtain ⟨d, u, rfl⟩ := List.exists_cons_of_ne_nil hnil
          rfl
        have hrest := ih (hlast ▸ hu)
        rw [List.cons_append, linesBy, linesBy, hrest]
        by_cases hc : ends c = true
        · simp [hc]
        · cases hlines : linesBy ends u with
          | nil => exact absurd (linesBy_eq_nil_iff.mp hlines) hnil
          | cons l ls => simp [hc]

end Lines

namespace Text

/-- The lines of a text, each with the line feed that ends it. -/
def lines (t : Text) : List Text := linesBy (· == '\n') t

/-- The text without its spaces, tabs, carriage returns and line feeds. -/
def solid (t : Text) : Text := t.filter fun c => !(isBlank c || c == '\r' || c == '\n')

theorem lines_append_lineFeed {u : Text} (hu : '\n' ∉ u) (t : Text) :
    lines (u ++ '\n' :: t) = (u ++ ['\n']) :: lines t := by
  refine linesBy_append_cons (fun c hc => ?_) rfl
  rw [beq_eq_false_iff_ne]
  rintro rfl
  exact hu hc

theorem lines_of_open {u : Text} (hu : '\n' ∉ u) (hne : u ≠ []) : lines u = [u] := by
  refine linesBy_of_open (fun c hc => ?_) hne
  rw [beq_eq_false_iff_ne]
  rintro rfl
  exact hu hc

theorem lines_append {u : Text} (hu : ∀ c ∈ u.getLast?, c = '\n') (t : Text) :
    lines (u ++ t) = lines u ++ lines t := linesBy_append (by simpa using hu) t

theorem exists_open (u t : Text) (hu : '\n' ∉ u) :
    ∃ ls v, '\n' ∉ v ∧ ∀ r, lines (u ++ (t ++ r)) = ls ++ lines (v ++ r) := by
  induction t generalizing u with
  | nil => exact ⟨[], u, hu, fun r => rfl⟩
  | cons c t ih =>
      by_cases hc : c = '\n'
      · subst hc
        obtain ⟨ls, v, hv, hlines⟩ := ih [] (by simp)
        refine ⟨(u ++ ['\n']) :: ls, v, hv, fun r => ?_⟩
        rw [List.cons_append, lines_append_lineFeed hu, List.cons_append, ← hlines r,
          List.nil_append]
      · obtain ⟨ls, v, hv, hlines⟩ :=
          ih (u ++ [c]) (by simpa using ⟨hu, fun h => hc h.symm⟩)
        exact ⟨ls, v, hv, fun r => by simpa using hlines r⟩

@[simp] theorem solid_nil : solid [] = [] := rfl

@[simp] theorem solid_append (s t : Text) : solid (s ++ t) = solid s ++ solid t :=
  List.filter_append ..

theorem solid_eq_nil {t : Text} (h : ∀ c ∈ t, isBlank c = true ∨ c = '\r' ∨ c = '\n') :
    solid t = [] := by
  refine List.filter_eq_nil_iff.mpr fun c hc => ?_
  rcases h c hc with h | rfl | rfl
  · simp [h]
  · simp
  · simp

theorem IsBlank.solid_eq_nil {t : Text} (h : IsBlank t) : solid t = [] :=
  Text.solid_eq_nil fun c hc => .inl (h c hc)

theorem IsLineEnd.solid_eq_nil {e rest : Text} (h : IsLineEnd e rest) : solid e = [] := by
  rcases h with rfl | rfl | ⟨rfl, -⟩ <;> rfl

end Text

/-! ## Marks -/

/-- A text with marks on some of its characters. -/
abbrev MarkedText := List (Char × Bool)

namespace MarkedText

def plain (t : Text) : MarkedText := t.map fun c => (c, false)

def taken (t : Text) : MarkedText := t.map fun c => (c, true)

/-- The characters without a mark. -/
def unmarked (m : MarkedText) : Text := (m.filter fun c => !c.2).map Prod.fst

/-- The lines without a mark. -/
def unmarkedLines (m : MarkedText) : List Text :=
  ((linesBy (fun c => c.1 == '\n') m).filter fun l => l.all fun c => !c.2).map fun l =>
    l.map Prod.fst

/-- The rest `t` of a text, from its `n`-th character on, with the characters of the occurrences
marked. -/
def mark (n : Nat) (t : Text) : List Occurrence → MarkedText
  | [] => plain t
  | o :: os =>
      plain (o.before.drop n) ++ (taken o.matched ++ mark (o.before ++ o.matched).length o.after os)

/-- The text with `added` in the place of the first of its occurrences, and without the others. -/
def replaceFirst (added t : Text) : List Occurrence → Text
  | [] => t
  | o :: os => o.before ++ (added ++ unmarked (mark (o.before ++ o.matched).length o.after os))

@[simp] theorem plain_nil : plain [] = [] := rfl

@[simp] theorem plain_append (s t : Text) : plain (s ++ t) = plain s ++ plain t := List.map_append

@[simp] theorem unmarked_append (m m' : MarkedText) :
    unmarked (m ++ m') = unmarked m ++ unmarked m' := by
  simp [unmarked]

@[simp] theorem unmarked_plain (t : Text) : unmarked (plain t) = t := by
  induction t with
  | nil => rfl
  | cons c t ih => simpa [unmarked, plain] using ih

@[simp] theorem unmarked_taken (t : Text) : unmarked (taken t) = [] := by
  simp [unmarked, taken]

@[simp] theorem map_fst_plain (t : Text) : (plain t).map Prod.fst = t := by
  simp [plain, Function.comp_def]

@[simp] theorem map_fst_taken (t : Text) : (taken t).map Prod.fst = t := by
  simp [taken, Function.comp_def]

theorem map_fst_mark {p : Pattern} {before t : Text} {os : List Occurrence}
    (h : Pattern.Scan p before t os) : (mark before.length t os).map Prod.fst = t := by
  induction h with
  | done => exact map_fst_plain _
  | next nonempty absent reads more ih =>
      rw [mark, List.map_append, List.map_append, ih]
      simp

theorem replaceFirst_nil (t : Text) (o : Occurrence) (os : List Occurrence) :
    replaceFirst [] t (o :: os) = unmarked (mark 0 t (o :: os)) := by
  simp [replaceFirst, mark]

variable {u m : MarkedText} {z r : Text}

theorem unmarkedLines_plain_append_lineFeed {v : Text} (hv : '\n' ∉ v) :
    unmarkedLines (plain v ++ ('\n', false) :: m) = (v ++ ['\n']) :: unmarkedLines m := by
  have hopen : ∀ c ∈ plain v, (c.1 == '\n') = false := by
    intro c hc
    obtain ⟨d, hd, rfl⟩ := List.mem_map.mp hc
    rw [beq_eq_false_iff_ne]
    rintro rfl
    exact hv hd
  rw [unmarkedLines, linesBy_append_cons hopen rfl]
  simp [unmarkedLines, plain, Function.comp_def]

theorem unmarkedLines_of_mark (hu : ∀ c ∈ u, c.1 ≠ '\n') {b : Bool}
    (h : b = true ∨ ∃ c ∈ u, c.2 = true) :
    unmarkedLines (u ++ ('\n', b) :: m) = unmarkedLines m := by
  have hopen : ∀ c ∈ u, (c.1 == '\n') = false := fun c hc => beq_eq_false_iff_ne.mpr (hu c hc)
  have hmark : ((u ++ [('\n', b)]).all fun c => !c.2) = false := by
    rw [List.all_eq_false]
    rcases h with rfl | ⟨c, hc, hmark⟩
    · exact ⟨('\n', true), by simp, by simp⟩
    · exact ⟨c, by simp [hc], by simp [hmark]⟩
  rw [unmarkedLines, linesBy_append_cons hopen rfl, List.filter_cons_of_neg (by simp [hmark])]
  rfl

theorem unmarkedLines_of_open (hu : ∀ c ∈ u, c.1 ≠ '\n') (h : ∃ c ∈ u, c.2 = true) :
    unmarkedLines u = [] := by
  obtain ⟨c, hc, hmark⟩ := h
  have hopen : ∀ c ∈ u, (c.1 == '\n') = false := fun c hc => beq_eq_false_iff_ne.mpr (hu c hc)
  have hno : (u.all fun c => !c.2) = false := List.all_eq_false.mpr ⟨c, hc, by simp [hmark]⟩
  rw [unmarkedLines, linesBy_of_open hopen (List.ne_nil_of_mem hc),
    List.filter_cons_of_neg (by simp [hno])]
  rfl

theorem exists_open_of_taken (u : MarkedText) (hu : ∀ c ∈ u, c.1 ≠ '\n') {t : Text} {c : Char}
    (hc : c ≠ '\n') :
    ∃ v : MarkedText, (∀ d ∈ v, d.1 ≠ '\n') ∧ (∃ d ∈ v, d.2 = true) ∧
      ∀ m, unmarkedLines (u ++ (taken (t ++ [c]) ++ m)) = unmarkedLines (v ++ m) := by
  induction t generalizing u with
  | nil =>
      refine ⟨u ++ [(c, true)], ?_, ⟨(c, true), by simp, rfl⟩, fun m => by simp [taken]⟩
      intro d hd
      rcases List.mem_append.mp hd with hd | hd
      · exact hu d hd
      · obtain rfl := List.mem_singleton.mp hd
        exact hc
  | cons d t ih =>
      by_cases hd : d = '\n'
      · subst hd
        obtain ⟨v, hv, hmark, hlines⟩ := ih [] (by simp)
        refine ⟨v, hv, hmark, fun m => ?_⟩
        rw [← hlines m]
        exact unmarkedLines_of_mark hu (.inl rfl)
      · obtain ⟨v, hv, hmark, hlines⟩ := ih (u ++ [(d, true)]) (by
          intro f hf
          rcases List.mem_append.mp hf with hf | hf
          · exact hu f hf
          · obtain rfl := List.mem_singleton.mp hf
            exact hd)
        exact ⟨v, hv, hmark, fun m => by simpa [taken] using hlines m⟩

/-! ## Open lines -/

/-- The line of a marked text that is open behind `z`, and the one that is open where occurrences
have been taken out: they are the same, or the former has a mark. -/
structure Opens (z : Text) (u : MarkedText) (v : Text) : Prop where
  marked_open : ∀ c ∈ u, c.1 ≠ '\n'
  trimmed_open : '\n' ∉ v
  alike : u = plain v ∨ ∃ c ∈ u, c.2 = true
  start : z.lastLine = [] → u = []

theorem Opens.nil (z : Text) : Opens z [] [] := ⟨by simp, by simp, .inl rfl, fun _ => rfl⟩

/-- Behind `z` the lines of `m` without a mark are lines of `r`. -/
def Keeps (z : Text) (m : MarkedText) (r : Text) : Prop :=
  ∀ u v, Opens z u v → (unmarkedLines (u ++ m)).Sublist (Text.lines (v ++ r))

theorem keeps_nil (z : Text) : Keeps z [] [] := by
  intro u v h
  rw [List.append_nil, List.append_nil]
  rcases h.alike with rfl | hmark
  · cases v with
    | nil => exact List.Sublist.refl _
    | cons c v =>
        have hopen : ∀ d ∈ plain (c :: v), (d.1 == '\n') = false := fun d hd =>
          beq_eq_false_iff_ne.mpr (h.marked_open d hd)
        rw [unmarkedLines, linesBy_of_open hopen (by simp [plain]),
          Text.lines_of_open h.trimmed_open (by simp)]
        simp [plain, Function.comp_def]
  · rw [unmarkedLines_of_open h.marked_open hmark]
    exact List.nil_sublist _

/-- What stays leaves the open lines alike, and ends them together. -/
theorem Keeps.plain_append {k : Text} (h : Keeps (z ++ k) m r) :
    Keeps z (plain k ++ m) (k ++ r) := by
  induction k generalizing z with
  | nil => simpa using h
  | cons c k ih =>
      have hrest : Keeps (z ++ [c]) (plain k ++ m) (k ++ r) := ih (by simpa using h)
      intro u v hopen
      by_cases hc : c = '\n'
      · subst hc
        have hlines := hrest [] [] (.nil _)
        rw [List.cons_append, Text.lines_append_lineFeed hopen.trimmed_open]
        rcases hopen.alike with rfl | hmark
        · exact (unmarkedLines_plain_append_lineFeed hopen.trimmed_open).symm ▸
            hlines.cons_cons _
        · exact (unmarkedLines_of_mark hopen.marked_open (.inr hmark)).symm ▸ hlines.cons _
      · have hlines := hrest (u ++ [(c, false)]) (v ++ [c]) ⟨?_, ?_, ?_, ?_⟩
        · simpa [plain] using hlines
        · intro d hd
          rcases List.mem_append.mp hd with hd | hd
          · exact hopen.marked_open d hd
          · obtain rfl := List.mem_singleton.mp hd
            exact hc
        · simpa using ⟨hopen.trimmed_open, fun h => hc h.symm⟩
        · rcases hopen.alike with rfl | ⟨d, hd, hmark⟩
          · exact .inl (by simp [plain])
          · exact .inr ⟨d, by simp [hd], hmark⟩
        · rw [Text.lastLine_append_of_not_mem (by simpa using fun h => hc h.symm)]
          simp

/-- An occurrence marks every line it is on, whatever is put in its place. -/
theorem Keeps.taken_append {t added : Text} {c : Char} (hc : c ≠ '\n')
    (h : Keeps (z ++ (t ++ [c])) m r) : Keeps z (taken (t ++ [c]) ++ m) (added ++ r) := by
  intro u v hopen
  obtain ⟨u', hu', hmark, hmarked⟩ := exists_open_of_taken u hopen.marked_open (t := t) hc
  obtain ⟨ls, v', hv', hlines⟩ := Text.exists_open v added hopen.trimmed_open
  rw [hmarked, hlines]
  refine (h u' v' ⟨hu', hv', .inr hmark, fun hstart => ?_⟩).trans
    (List.sublist_append_right _ _)
  rw [← List.append_assoc, Text.lastLine_append_of_not_mem (by simpa using fun h => hc h.symm)]
    at hstart
  simp at hstart

/-- An occurrence that has its lines for itself goes with them. -/
theorem Keeps.line_append {lead t b l : Text} {c : Char} (hstart : z.lastLine = [])
    (hlead : Text.IsBlank lead) (hc : c ≠ '\n') (hb : Text.IsBlank b)
    (hl : l = ['\n'] ∨ l = ['\r', '\n'] ∨ l = [] ∧ m = [])
    (h : Keeps (z ++ (lead ++ ((t ++ [c]) ++ (b ++ l)))) m r) :
    Keeps z (plain lead ++ (taken (t ++ [c]) ++ (plain (b ++ l) ++ m))) r := by
  intro u v hopen
  obtain rfl := hopen.start hstart
  obtain rfl : v = [] := by simpa [plain] using hopen.alike
  have hplain : ∀ {x : Text}, '\n' ∉ x → ∀ d ∈ plain x, d.1 ≠ '\n' := by
    intro x hx d hd
    obtain ⟨f, hf, rfl⟩ := List.mem_map.mp hd
    rintro rfl
    exact hx hf
  obtain ⟨u, hu, ⟨d, hd, hmark⟩, hmarked⟩ :=
    exists_open_of_taken (plain lead) (hplain (hlead.not_mem (by decide))) (t := t) hc
  rw [List.nil_append, hmarked]
  -- the line that the occurrence leaves open has a mark, and it ends at the line break
  have hopen' : ∀ {x : Text}, '\n' ∉ x → ∀ f ∈ u ++ plain x, f.1 ≠ '\n' := by
    intro x hx f hf
    rcases List.mem_append.mp hf with hf | hf
    · exact hu f hf
    · exact hplain hx f hf
  have hblank : '\n' ∉ b := hb.not_mem (by decide)
  have hrest := h [] [] (.nil _)
  rcases hl with rfl | rfl | ⟨rfl, rfl⟩
  · have htext : u ++ (plain (b ++ ['\n']) ++ m) = (u ++ plain b) ++ ('\n', false) :: m := by
      simp [plain]
    rw [htext, unmarkedLines_of_mark (hopen' hblank) (.inr ⟨d, by simp [hd], hmark⟩)]
    exact hrest
  · have hreturn : '\n' ∉ b ++ ['\r'] := by simpa using hblank
    have htext : u ++ (plain (b ++ ['\r', '\n']) ++ m) =
        (u ++ plain (b ++ ['\r'])) ++ ('\n', false) :: m := by
      simp [plain]
    rw [htext, unmarkedLines_of_mark (hopen' hreturn) (.inr ⟨d, by simp [hd], hmark⟩)]
    exact hrest
  · have hgone := unmarkedLines_of_open (hopen' hblank) ⟨d, by simp [hd], hmark⟩
    simp only [List.append_nil, hgone]
    exact List.nil_sublist _

/-! ## Trimmed texts -/

/-- `r` is what becomes of the marked text behind `z` when each marked part is taken out, alone or
with the lines it has for itself. -/
inductive Trims : Text → MarkedText → Text → Prop where
  | done {z k} : Trims z (plain k) k
  | part {z k t c m r} (closed : c ≠ '\n') (more : Trims (z ++ (k ++ (t ++ [c]))) m r) :
      Trims z (plain k ++ (taken (t ++ [c]) ++ m)) (k ++ r)
  | line {z k lead t c b l m r} (start : (z ++ k).lastLine = []) (blank : Text.IsBlank lead)
      (closed : c ≠ '\n')
      (blank' : Text.IsBlank b) (ending : l = ['\n'] ∨ l = ['\r', '\n'] ∨ l = [] ∧ m = [])
      (more : Trims (z ++ (k ++ (lead ++ ((t ++ [c]) ++ (b ++ l))))) m r) :
      Trims z (plain k ++ (plain lead ++ (taken (t ++ [c]) ++ (plain (b ++ l) ++ m)))) (k ++ r)

theorem Trims.keeps (h : Trims z m r) : Keeps z m r := by
  induction h with
  | @done z k => simpa using (keeps_nil (z ++ k)).plain_append
  | @part z k t c m r closed more ih =>
      rw [← List.append_assoc] at ih
      have hkept : Keeps (z ++ k) (taken (t ++ [c]) ++ m) ([] ++ r) := ih.taken_append closed
      exact hkept.plain_append
  | @line z k lead t c b l m r start blank closed blank' ending more ih =>
      rw [← List.append_assoc] at ih
      exact (ih.line_append start blank closed blank' ending).plain_append

/-- Every line without a mark is a line of the trimmed text. -/
theorem Keeps.sublist (h : Keeps [] m r) : (unmarkedLines m).Sublist (Text.lines r) :=
  h [] [] (.nil _)

/-- Nothing but white space goes with the marked parts. -/
theorem Trims.solid_eq (h : Trims z m r) : r.solid = m.unmarked.solid := by
  induction h with
  | done => simp
  | part closed more ih => simp [ih]
  | @line z k lead t c b l m r start blank closed blank' ending more ih =>
      have hl : Text.solid l = [] := by
        rcases ending with rfl | rfl | ⟨rfl, -⟩ <;> rfl
      simp [ih, hl, blank.solid_eq_nil, blank'.solid_eq_nil]

end MarkedText

end Rewrap
