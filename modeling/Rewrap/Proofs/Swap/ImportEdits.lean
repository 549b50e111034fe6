import Mathlib
import Rewrap.Proofs.Edit.Cuts
import Rewrap.Proofs.Import.Spelling
import Rewrap.Proofs.Text.Lines
import Rewrap.Proofs.Text.Trimming

/-! # Swapping the import

The edits for the retiring imports are cuts: none of them reaches into the next, and what they take
out is the imports, with the lines that hold nothing else. So all that is lost besides is white
space, and only on lines that hold a retiring import. -/

namespace Rewrap

/-! ## Open lines -/

namespace Text

/-- The line that is open at the end of the text is empty or holds more than blanks. -/
def IsAnchored (z : Text) : Prop := z.lastLine = [] ∨ ∃ c ∈ z.lastLine, isBlank c = false

theorem isAnchored_nil : IsAnchored [] := .inl rfl

theorem exists_not_blank_append_cons {c : Char} (hc : isBlank c = false) (hn : c ≠ '\n')
    (z : Text) {e : Text} (he : '\n' ∉ e) :
    ∃ d ∈ (z ++ c :: e).lastLine, isBlank d = false := by
  have hmem : '\n' ∉ c :: e := by
    simp only [List.mem_cons, not_or]
    exact ⟨fun h => hn h.symm, he⟩
  rw [lastLine_append_of_not_mem hmem]
  exact ⟨c, by simp, hc⟩

theorem isAnchored_append_cons {c : Char} (hc : isBlank c = false) (hn : c ≠ '\n') (z : Text)
    {e : Text} (he : '\n' ∉ e) : IsAnchored (z ++ c :: e) :=
  .inr (exists_not_blank_append_cons hc hn z he)

theorem isAnchored_append_lineFeed (z : Text) : IsAnchored (z ++ ['\n']) :=
  .inl (lastLine_append_cons (by simp) z)

theorem IsAnchored.exists_lead {z x : Text} (hz : IsAnchored z)
    (hblank : IsBlank (z ++ x).lastLine) : ∃ x', x = x' ++ (z ++ x).lastLine := by
  by_cases hx : '\n' ∈ x
  · rw [lastLine_append_of_mem hx]
    obtain ⟨s, hs⟩ := lastLine_suffix x
    exact ⟨s, hs.symm⟩
  · rw [lastLine_append_of_not_mem hx] at hblank ⊢
    rcases hz with hz | ⟨c, hc, hcb⟩
    · exact ⟨[], by simp [hz]⟩
    · exact absurd (hblank c (by simp [hc])) (by simp [hcb])

end Text

namespace Import

/-- The blanks after an import that has its line for itself, and the line break. -/
def IsLineRest (r : Text) : Prop :=
  ∃ b l, Text.IsBlank b ∧ r = b ++ l ∧ (l = [] ∨ l = ['\n'] ∨ l = ['\r', '\n'])

/-- What is taken out with an import: its statement, and the rest of its line if it has that for
itself. -/
def IsDropped (i : Import) (d : Text) : Prop :=
  ∃ lead m e trail, d = lead ++ (m ++ (e ++ trail)) ∧ i.IsSpelling m ∧ IsTerminator e ∧
    ((lead = [] ∧ trail = []) ∨ (Text.IsBlank lead ∧ IsLineRest trail))

/-- No spelling of the import is part of the text. -/
def IsFreeOf (i : Import) (t : Text) : Prop := ∀ m, i.IsSpelling m → ¬m <:+: t

theorem isFreeOf_iff_occursIn {i : Import} (hi : i.IsNamed) {t : Text} :
    i.IsFreeOf t ↔ i.clause.occursIn t = false := by
  rw [← Bool.not_eq_true, clause_occursIn_iff hi]
  simp [IsFreeOf]

theorem isFreeOf_of_absent {i : Import} (hi : i.IsNamed) {before x y : Text}
    (h : Pattern.Absent i.statement before (x ++ y)) : i.IsFreeOf y := by
  rintro m hm ⟨a, b, rfl⟩
  have := h (x ++ a) (m ++ b) (by simp)
  simp [statement_append hi hm] at this

theorem isFreeOf_of_absentBefore {i : Import} (hi : i.IsNamed) {before x y z rest : Text}
    (h : Pattern.AbsentBefore i.statement before (x ++ (y ++ z)) rest) : i.IsFreeOf y := by
  rintro m hm ⟨a, b, rfl⟩
  obtain ⟨m', rfl⟩ := hm.head
  have := h (x ++ a) ('i' :: m' ++ (b ++ (z ++ rest))) (by simp) (by simp)
  rw [statement_append hi hm] at this
  simp at this

theorem IsTerminator.not_mem {e : Text} (he : IsTerminator e) {c : Char}
    (hblank : Text.isBlank c = false) (hsemicolon : c ≠ ';') : c ∉ e := by
  obtain ⟨b, hb, rfl | rfl⟩ := he
  · exact Text.IsBlank.not_mem hb hblank
  · simpa [hsemicolon] using Text.IsBlank.not_mem hb hblank

theorem IsTerminator.lineFeed_not_mem {e : Text} (he : IsTerminator e) : '\n' ∉ e :=
  he.not_mem (by decide) (by decide)

theorem IsStatement.exists_not_blank {i : Import} {d b : Text} (hd : i.IsStatement d) (z : Text)
    (hb : '\n' ∉ b) : ∃ c ∈ (z ++ (d ++ b)).lastLine, Text.isBlank c = false := by
  obtain ⟨m, e, hm, he, rfl⟩ := hd
  obtain ⟨m, q, hq, rfl⟩ := hm.last
  have hblank : Text.isBlank q = false := by rcases hq with rfl | rfl <;> decide
  have hbreak : q ≠ '\n' := by rcases hq with rfl | rfl <;> decide
  have hend : '\n' ∉ e ++ b := by simpa using ⟨he.lineFeed_not_mem, hb⟩
  simpa using Text.exists_not_blank_append_cons hblank hbreak (z ++ m) hend

theorem IsStatement.isAnchored {i : Import} {d b : Text} (hd : i.IsStatement d) (z : Text)
    (hb : '\n' ∉ b) : Text.IsAnchored (z ++ (d ++ b)) := .inr (hd.exists_not_blank z hb)

theorem IsStatement.exists_last {i : Import} {d : Text} (hd : i.IsStatement d) :
    ∃ u c, c ≠ '\n' ∧ c ≠ '/' ∧ d = u ++ [c] := by
  obtain ⟨m, e, hm, he, rfl⟩ := hd
  rcases e.eq_nil_or_concat with rfl | ⟨e, c, rfl⟩
  · obtain ⟨m, q, hq, rfl⟩ := hm.last
    have hplain : q ≠ '\n' ∧ q ≠ '/' := by rcases hq with rfl | rfl <;> decide
    exact ⟨m, q, hplain.1, hplain.2, by simp⟩
  · have hplain : ∀ {b}, Text.isBlank b = false → b ≠ ';' → c ≠ b := by
      rintro b hblank hsemicolon rfl
      exact he.not_mem hblank hsemicolon (by simp)
    exact ⟨m ++ e, c, hplain (by decide) (by decide), hplain (by decide) (by decide), by simp⟩

theorem IsStatement.isDropped {i : Import} {d lead trail : Text} (hd : i.IsStatement d)
    (h : (lead = [] ∧ trail = []) ∨ (Text.IsBlank lead ∧ IsLineRest trail)) :
    i.IsDropped (lead ++ (d ++ trail)) := by
  obtain ⟨m, e, hm, he, rfl⟩ := hd
  exact ⟨lead, m, e, trail, by simp, hm, he, h⟩

theorem IsStatement.isDropped_self {i : Import} {d : Text} (hd : i.IsStatement d) :
    i.IsDropped d := by
  have h : i.IsDropped ([] ++ (d ++ [])) := hd.isDropped (.inl ⟨rfl, rfl⟩)
  simpa using h

theorem IsLineRest.isSpace {r : Text} (hr : IsLineRest r) : Text.IsSpace r := by
  obtain ⟨b, l, hb, rfl, hl⟩ := hr
  refine Text.isSpace_append.mpr ⟨hb.isSpace, ?_⟩
  rcases hl with rfl | rfl | rfl <;> decide

end Import

namespace Swap

/-! ## Dropping imports -/

/-- The text behind the lines of an import that stands between two texts, if it has those lines for
itself. -/
def behindLines? (before after : Text) : Option Text :=
  if Text.IsBlank before.lastLine then after.dropIndent.dropLineEnd? else none

theorem dropImport_eq (before matched after : Text) :
    dropImport ⟨before, matched, after⟩ =
      match behindLines? before after with
      | some rest => ⟨before.utf8Size - before.lastLine.utf8Size,
          (before ++ matched).utf8Size + (after.utf8Size - rest.utf8Size), []⟩
      | none => ⟨before.utf8Size, (before ++ matched).utf8Size, []⟩ := by
  rw [behindLines?, dropImport, ownLines?, Text.utf8Size_append]
  cases after.dropIndent.dropLineEnd? with
  | none =>
      rw [ite_self]
      rfl
  | some rest =>
      by_cases hlead : Text.IsBlank before.lastLine
      · simp [hlead, Text.isBlank_iff_all.mp hlead, Edit.delete, Occurrence.start, Occurrence.stop]
      · have hno := mt Text.isBlank_iff_all.mpr hlead
        simp [hlead, hno, Edit.delete, Occurrence.start, Occurrence.stop]

theorem behindLines?_eq_some {before after rest : Text}
    (h : behindLines? before after = some rest) :
    Text.IsBlank before.lastLine ∧
      ∃ b l, Text.IsBlank b ∧ Text.IsLineEnd l rest ∧ after = (b ++ l) ++ rest := by
  rw [behindLines?] at h
  split at h
  · next hlead =>
      obtain ⟨l, hl, hdrop⟩ := Text.dropLineEnd?_eq_some h
      refine ⟨hlead, after.indent, l, Text.isBlank_indent _, hl, ?_⟩
      rw [List.append_assoc, ← hdrop, Text.indent_append_dropIndent]
  · simp at h

/-- What goes with an import between `z` and `rest`: nothing, or what is left of its lines if
nothing else stands on them. -/
def IsBeside (z lead trail rest : Text) : Prop :=
  (lead = [] ∧ trail = []) ∨
    (z.lastLine = [] ∧ Text.IsBlank lead ∧ ∃ b l, Text.IsBlank b ∧ Text.IsLineEnd l rest ∧
      trail = b ++ l)

namespace IsBeside

variable {i : Import} {z kept lead d trail rest : Text}

theorem isLineRest (h : IsBeside z lead trail rest) :
    (lead = [] ∧ trail = []) ∨ (Text.IsBlank lead ∧ Import.IsLineRest trail) := by
  rcases h with h | ⟨-, hlead, b, l, hb, hl, rfl⟩
  · exact .inl h
  · refine .inr ⟨hlead, b, l, hb, rfl, ?_⟩
    rcases hl with h | h | ⟨h, -⟩ <;> simp [h]

theorem isSpace (h : IsBeside z lead trail rest) : Text.IsSpace trail := by
  rcases h.isLineRest with ⟨-, rfl⟩ | ⟨-, h⟩
  · simp [Text.IsSpace]
  · exact h.isSpace

/-- Behind the line break a new line begins; without one the statement's quote is still there. -/
theorem isAnchored (h : IsBeside z lead trail rest) (hd : i.IsStatement d) (y : Text) :
    Text.IsAnchored (y ++ (d ++ trail)) := by
  rcases h with ⟨-, rfl⟩ | ⟨-, -, b, l, hb, rfl | rfl | ⟨rfl, -⟩, rfl⟩
  · exact hd.isAnchored y (by simp)
  · simpa using Text.isAnchored_append_lineFeed (y ++ (d ++ b))
  · simpa using Text.isAnchored_append_lineFeed (y ++ (d ++ (b ++ ['\r'])))
  · simpa using hd.isAnchored y (hb.not_mem (c := '\n') (by decide))

/-- Taking out a statement together with what goes with it trims the marked text. -/
theorem trims {r : Text} {marked : MarkedText} (h : IsBeside (z ++ kept) lead trail rest)
    (hd : i.IsStatement d) (hrest : marked.map Prod.fst = rest)
    (more : MarkedText.Trims (z ++ (kept ++ (lead ++ (d ++ trail)))) marked r) :
    MarkedText.Trims z (.plain kept ++ (.plain lead ++ (.taken d ++ (.plain trail ++ marked))))
      (kept ++ r) := by
  obtain ⟨u, c, hc, -, rfl⟩ := hd.exists_last
  rcases h with ⟨rfl, rfl⟩ | ⟨hstart, hlead, b, l, hb, hl, rfl⟩
  · exact .part hc (by simpa using more)
  · refine .line hstart hlead hc hb ?_ more
    rcases hl with h | h | ⟨h, hnil⟩
    · exact .inl h
    · exact .inr (.inl h)
    · exact .inr (.inr ⟨h, by simpa [hnil] using hrest⟩)

end IsBeside

/-- Dropping a statement that follows an anchored text is a cut. -/
theorem dropImport_cut {z : Text} (hz : Text.IsAnchored z) (g d rest : Text) :
    ∃ kept lead trail rest', g = kept ++ lead ∧ rest = trail ++ rest' ∧
      IsBeside (z ++ kept) lead trail rest' ∧
      dropImport ⟨z ++ g, d, rest⟩ =
        ⟨(z ++ kept).utf8Size, (z ++ (kept ++ (lead ++ (d ++ trail)))).utf8Size, []⟩ := by
  rw [dropImport_eq]
  cases hlines : behindLines? (z ++ g) rest with
  | none => exact ⟨g, [], [], rest, by simp, by simp, .inl ⟨rfl, rfl⟩, by simp⟩
  | some rest' =>
      obtain ⟨hlead, b, l, hb, hl, hrest⟩ := behindLines?_eq_some hlines
      obtain ⟨kept, hg⟩ := hz.exists_lead hlead
      have hbegins : (z ++ kept).lastLine = [] := by
        have hopen := Text.lastLine_append_of_not_mem
          (hlead.not_mem (c := '\n') (by decide)) (z ++ kept)
        rw [List.append_assoc, ← hg] at hopen
        exact List.append_left_eq_self.mp hopen.symm
      refine ⟨kept, (z ++ g).lastLine, b ++ l, rest', hg, hrest,
        .inr ⟨hbegins, hlead, b, l, hb, hl, rfl⟩, ?_⟩
      have hsize := congrArg Text.utf8Size hg
      have hsize' := congrArg Text.utf8Size hrest
      simp only [Text.utf8Size_append, Edit.mk.injEq, and_true] at hsize hsize' ⊢
      omega

/-- A cut that takes out an import and keeps no whole one. -/
def IsImportCut (i : Import) (c : Cut) : Prop := i.IsDropped c.removed ∧ i.IsFreeOf c.kept

/-- The cuts that drop the imports `os` of the text `t`, from which `eaten` is gone already. -/
structure DropCuts (i : Import) (before t : Text) (os : List Occurrence) (eaten : Text)
    (cs : List Cut) (tail : Text) : Prop where
  source : t = eaten ++ Cut.source tail cs
  edits : os.map dropImport = Cut.edits (before ++ eaten).utf8Size cs
  count : os.length = cs.length
  cuts : ∀ c ∈ cs, c.added = [] ∧ IsImportCut i c
  tail_free : i.IsFreeOf tail
  trims : ∃ marked, MarkedText.mark before.length t os = .plain eaten ++ marked ∧
    MarkedText.Trims (before ++ eaten) marked (Cut.result tail cs)

theorem DropCuts.nil {i : Import} (hi : i.IsNamed) {before eaten t : Text}
    (absent : Pattern.Absent i.statement before (eaten ++ t)) :
    DropCuts i before (eaten ++ t) [] eaten [] t where
  source := rfl
  edits := rfl
  count := rfl
  cuts := by simp
  tail_free := Import.isFreeOf_of_absent hi absent
  trims := ⟨.plain t, by simp [MarkedText.mark], .done⟩

theorem DropCuts.cons {i : Import} {before eaten kept lead d trail rest tail : Text}
    {os : List Occurrence} {cs : List Cut} (hd : i.IsStatement d)
    (hbeside : IsBeside ((before ++ eaten) ++ kept) lead trail rest) (hfree : i.IsFreeOf kept)
    (hdrop : dropImport ⟨before ++ (eaten ++ (kept ++ lead)), d, trail ++ rest⟩ =
      ⟨((before ++ eaten) ++ kept).utf8Size,
      ((before ++ eaten) ++ (kept ++ (lead ++ (d ++ trail)))).utf8Size, []⟩)
    (hscan : Pattern.Scan i.statement (before ++ (eaten ++ (kept ++ lead)) ++ d) (trail ++ rest) os)
    (h : DropCuts i (before ++ (eaten ++ (kept ++ lead)) ++ d) (trail ++ rest) os trail cs tail) :
    DropCuts i before (eaten ++ (kept ++ lead) ++ (d ++ (trail ++ rest)))
      (⟨before ++ (eaten ++ (kept ++ lead)), d, trail ++ rest⟩ :: os) eaten
      (⟨kept, lead ++ (d ++ trail), []⟩ :: cs) tail := by
  obtain ⟨marked, hmarked, htrims⟩ := h.trims
  have hmarks : marked.map Prod.fst = rest := by
    have hrest := MarkedText.map_fst_mark hscan
    rw [hmarked, List.map_append, MarkedText.map_fst_plain] at hrest
    exact List.append_cancel_left hrest
  refine ⟨?_, ?_, by simp [h.count], ?_, h.tail_free,
    .plain kept ++ (.plain lead ++ (.taken d ++ (.plain trail ++ marked))), ?_,
    hbeside.trims hd hmarks (by simpa using htrims)⟩
  · have hsource := List.append_cancel_left h.source
    simp [Cut.source, hsource]
  · rw [List.map_cons, hdrop, h.edits, Cut.edits]
    simp [Nat.add_assoc]
  · intro c hc
    rcases List.mem_cons.mp hc with rfl | hc
    · exact ⟨rfl, hd.isDropped hbeside.isLineRest, hfree⟩
    · exact h.cuts c hc
  · rw [MarkedText.mark, hmarked]
    simp

theorem dropImports_cuts {i : Import} (hi : i.IsNamed) {before t : Text} {os : List Occurrence}
    (hscan : Pattern.Scan i.statement before t os) :
    ∀ eaten t', t = eaten ++ t' → Text.IsSpace eaten → Text.IsAnchored (before ++ eaten) →
      ∃ cs tail, DropCuts i before t os eaten cs tail := by
  induction hscan with
  | done absent =>
      rintro eaten t' rfl - -
      exact ⟨[], t', .nil hi absent⟩
  | @next before g d rest os nonempty absent reads more ih =>
      intro eaten t' ht hspace hanchored
      have hd := Import.isStatement_of_reads reads
      -- what went with the import before is white space, so it ends before this import begins
      obtain ⟨g', rfl⟩ : ∃ g', g = eaten ++ g' := by
        rcases List.append_eq_append_iff.mp ht with ⟨a, rfl, ha⟩ | ⟨a, rfl, -⟩
        · cases a with
          | nil => exact ⟨[], by simp⟩
          | cons c a =>
              obtain ⟨d', rfl⟩ := hd.head
              obtain ⟨rfl, -⟩ := List.cons.inj ha
              exact absurd (hspace 'i' (by simp)) (by decide)
        · exact ⟨a, rfl⟩
      obtain ⟨kept, lead, trail, rest', rfl, rfl, hbeside, hdrop⟩ :=
        dropImport_cut hanchored g' d rest
      have hnext := hbeside.isAnchored hd (before ++ (eaten ++ (kept ++ lead)))
      obtain ⟨cs, tail, h⟩ := ih _ _ rfl hbeside.isSpace (by simpa using hnext)
      exact ⟨_, tail, .cons hd hbeside (Import.isFreeOf_of_absentBefore hi absent)
        (by simpa using hdrop) more h⟩

theorem isNamed_of_isTagName {name module : String} (h : Spec.isTagName name = true) :
    (⟨name, module⟩ : Import).IsNamed := by
  simp only [Spec.isTagName, Bool.and_eq_true, Bool.not_eq_true', List.all_eq_true,
    Bool.or_eq_true, beq_iff_eq] at h
  obtain ⟨hne, hall⟩ := h
  refine ⟨fun hnil => ?_, fun c hc => ?_⟩
  · have : name = "" := String.toList_inj.mp (by simpa using hnil)
    simp [this] at hne
  · rcases hall c hc with (hchar | rfl) | rfl
    · simp only [Char.isAlphanum, Char.isAlpha, Char.isUpper, Char.isLower,
        Char.isDigit, ge_iff_le,
        UInt32.le_iff_toNat_le, Bool.or_eq_true, Bool.and_eq_true, decide_eq_true_eq,
        Char.toNat_val] at hchar
      have hrange : 48 ≤ c.toNat ∧ c.toNat ≤ 122 := by
        have hdigits : '0'.toNat = 48 ∧ '9'.toNat = 57 ∧ 'A'.toNat = 65 ∧ 'Z'.toNat = 90 ∧
          'a'.toNat = 97 ∧ 'z'.toNat = 122 := by decide
        omega
      simp only [isWhiteSpace, Bool.or_eq_false_iff, Bool.and_eq_false_iff, decide_eq_false_iff_not,
        beq_eq_false_iff_ne]
      omega
    · decide
    · decide

/-- The cuts that the import step makes: the first import gives way to the new one, unless that is
there already, and the others go. -/
structure ImportCuts (s : Swap) (t : Text) (first : Cut) (others : List Cut)
    (tail : Text) : Prop where
  source : t = Cut.source tail (first :: others)
  added : first.added =
    if s.spec.replacement.clause.occursIn t then [] else s.spec.replacement.canonical.toList
  added_others : ∀ c ∈ others, c.added = []
  cuts : ∀ c ∈ first :: others, IsImportCut s.spec.retiring c
  tail_free : s.spec.retiring.IsFreeOf tail
  edits : s.importEdits (s.spec.replacement.clause.occursIn t)
      (s.spec.retiring.statement.occurrences t) =
    Cut.edits 0 (first :: others)
  count : (s.spec.retiring.statement.occurrences t).length = others.length + 1
  solid : (Cut.result tail (first :: others)).solid =
    (MarkedText.replaceFirst first.added t (s.spec.retiring.statement.occurrences t)).solid
  keeps : MarkedText.Keeps [] (.mark 0 t (s.spec.retiring.statement.occurrences t))
    (Cut.result tail (first :: others))

theorem isTagName_components (s : Swap) :
    Spec.isTagName s.spec.oldComponent = true ∧ Spec.isTagName s.spec.newComponent = true := by
  have h := s.faultless
  unfold Spec.fault? at h
  split at h
  · simp at h
  · next hold =>
      split at h
      · simp at h
      · next hnew => exact ⟨by simpa using hold, by simpa using hnew⟩

theorem retiring_isNamed (s : Swap) : s.spec.retiring.IsNamed :=
  isNamed_of_isTagName s.isTagName_components.1

theorem replacement_isNamed (s : Swap) : s.spec.replacement.IsNamed :=
  isNamed_of_isTagName s.isTagName_components.2

theorem swapImport_of_edit {s : Swap} {t u : Text}
    (hne : s.spec.retiring.statement.occurrences t ≠ [])
    (h : edit t (s.importEdits (s.spec.replacement.clause.occursIn t)
      (s.spec.retiring.statement.occurrences t)) = .ok u) :
    s.swapImport t = .ok (some (u, (s.spec.retiring.statement.occurrences t).length)) := by
  unfold swapImport
  split
  · next hnil => exact absurd hnil hne
  · rw [h]
    rfl

theorem ImportCuts.swapImport {s : Swap} {t : Text} {first : Cut} {others : List Cut} {tail : Text}
    (h : ImportCuts s t first others tail) :
    s.swapImport t = .ok (some (Cut.result tail (first :: others), others.length + 1)) := by
  rw [← h.count]
  refine swapImport_of_edit (fun hnil => ?_) ?_
  · have hcount := h.count
    simp [hnil] at hcount
  · have hedit := edit_cuts tail (first :: others)
    rwa [← h.source, ← h.edits] at hedit

theorem ImportCuts.of_present {s : Swap} {t : Text} {o : Occurrence} {os : List Occurrence}
    {first : Cut} {others : List Cut} {tail : Text}
    (hos : s.spec.retiring.statement.occurrences t = o :: os)
    (hpresent : s.spec.replacement.clause.occursIn t = true)
    (h : DropCuts s.spec.retiring [] t (o :: os) [] (first :: others) tail) :
    ImportCuts s t first others tail := by
  obtain ⟨marked, hmarked, htrims⟩ := h.trims
  obtain rfl : MarkedText.mark 0 t (o :: os) = marked := by simpa using hmarked
  have hadded := (h.cuts first (by simp)).1
  refine ⟨h.source, by simp [hpresent, hadded], fun c hc => (h.cuts c (by simp [hc])).1,
    fun c hc => (h.cuts c hc).2, h.tail_free, ?_, by rw [hos, h.count]; rfl, ?_, ?_⟩
  · rw [hos, hpresent, importEdits, if_pos rfl, ← List.map_cons, h.edits]
    rfl
  · rw [hos, hadded, MarkedText.replaceFirst_nil]
    exact htrims.solid_eq
  · rw [hos]
    exact htrims.keeps

theorem ImportCuts.of_absent {s : Swap} {g d rest : Text} {os : List Occurrence} {cs : List Cut}
    {tail : Text}
    (hos : s.spec.retiring.statement.occurrences (g ++ (d ++ rest)) = ⟨g, d, rest⟩ :: os)
    (hpresent : s.spec.replacement.clause.occursIn (g ++ (d ++ rest)) = false)
    (hd : s.spec.retiring.IsStatement d) (hfree : s.spec.retiring.IsFreeOf g)
    (h : DropCuts s.spec.retiring (g ++ d) rest os [] cs tail) :
    ImportCuts s (g ++ (d ++ rest)) ⟨g, d, s.spec.replacement.canonical.toList⟩ cs tail := by
  obtain ⟨marked, hmarked, htrims⟩ := h.trims
  obtain rfl : MarkedText.mark (g ++ d).length rest os = marked := by simpa using hmarked
  refine ⟨by rw [Cut.source, ← List.nil_append (Cut.source tail cs), ← h.source],
    by rw [hpresent]; rfl,
    fun c hc => (h.cuts c hc).1, ?_, h.tail_free, ?_,
      by rw [hos, List.length_cons, h.count], ?_, ?_⟩
  · intro c hc
    rcases List.mem_cons.mp hc with rfl | hc
    · exact ⟨hd.isDropped_self, hfree⟩
    · exact (h.cuts c hc).2
  · rw [hos, hpresent, importEdits, h.edits]
    simp [Cut.edits, Occurrence.start, Occurrence.stop]
  · rw [hos]
    simpa [MarkedText.replaceFirst, Cut.result] using htrims.solid_eq
  · obtain ⟨u, c, hc, -, rfl⟩ := hd.exists_last
    have hkeeps := htrims.keeps
    rw [hos, MarkedText.mark]
    simp only [List.drop_zero, List.append_nil] at hkeeps ⊢
    exact MarkedText.Keeps.plain_append (z := []) (hkeeps.taken_append hc)

/-- The import step leaves a text alone that is free of the import, and otherwise makes cuts. -/
theorem swapImport_cuts (s : Swap) (t : Text) :
    (s.spec.retiring.IsFreeOf t ∧ s.spec.retiring.statement.occurrences t = []) ∨
      ∃ first others tail, ImportCuts s t first others tail := by
  have hi := s.retiring_isNamed
  have hscan := Pattern.occurrences_scan (Import.statement_proper s.spec.retiring) t
  cases hos : s.spec.retiring.statement.occurrences t with
  | nil =>
      rw [hos] at hscan
      cases hscan with
      | done absent =>
          exact .inl ⟨Import.isFreeOf_of_absent (x := []) hi absent, rfl⟩
  | cons o os =>
      rw [hos] at hscan
      right
      cases hpresent : s.spec.replacement.clause.occursIn t with
      | true =>
          obtain ⟨cs, tail, h⟩ :=
            dropImports_cuts hi hscan [] t rfl (by simp [Text.IsSpace]) Text.isAnchored_nil
          cases cs with
          | nil => simpa using h.count
          | cons first others => exact ⟨first, others, tail, .of_present hos hpresent h⟩
      | false =>
          cases hscan with
          | @next _ g d rest _ nonempty absent reads more =>
              have hd := Import.isStatement_of_reads reads
              obtain ⟨cs, tail, h⟩ :=
                dropImports_cuts hi more [] rest rfl (by simp [Text.IsSpace])
                (by simpa using hd.isAnchored (b := []) g (by simp))
              have hfree : s.spec.retiring.IsFreeOf g :=
                Import.isFreeOf_of_absentBefore (x := []) (z := []) hi (by simpa using absent)
              exact ⟨_, cs, tail, .of_absent hos hpresent hd hfree h⟩

theorem swapImport_of_isFreeOf {s : Swap} {t : Text} (h : s.spec.retiring.IsFreeOf t) :
    s.swapImport t = .ok none := by
  rcases s.swapImport_cuts t with ⟨-, hnil⟩ | ⟨first, others, tail, hcuts⟩
  · simp [swapImport, hnil]
  · obtain ⟨lead, m, e, trail, hremoved, hm, -, -⟩ := (hcuts.cuts first (by simp)).1
    refine absurd ?_ (h m hm)
    rw [hcuts.source]
    exact ⟨first.kept ++ lead, e ++ trail ++ Cut.source tail others,
      by simp [Cut.source, hremoved]⟩

/-! ## What the import step keeps -/

/-- A text that is free of the retiring import is left alone. In any other all imports are retired;
up to blanks and line breaks the text loses nothing else, and every line that touches no
retiring import is still a line. -/
theorem swapImport_keeps (s : Swap) (t : Text) :
    (s.swapImport t = .ok none ↔ s.spec.retiring.IsFreeOf t) ∧
      (s.spec.retiring.IsFreeOf t ∨
        ∃ out, s.swapImport t =
            .ok (some (out, (s.spec.retiring.statement.occurrences t).length)) ∧
          out.solid = (MarkedText.replaceFirst
            (if s.spec.replacement.clause.occursIn t then []
              else s.spec.replacement.canonical.toList) t
            (s.spec.retiring.statement.occurrences t)).solid ∧
          (MarkedText.unmarkedLines (.mark 0 t (s.spec.retiring.statement.occurrences t))).Sublist
            out.lines) := by
  rcases s.swapImport_cuts t with ⟨hfree, -⟩ | ⟨first, others, tail, hcuts⟩
  · exact ⟨iff_of_true (swapImport_of_isFreeOf hfree) hfree, .inl hfree⟩
  · have hswapped := hcuts.swapImport
    have hheld : ¬s.spec.retiring.IsFreeOf t := by
      intro hfree
      rw [swapImport_of_isFreeOf hfree] at hswapped
      simp at hswapped
    refine ⟨iff_of_false (by simp [hswapped]) hheld, .inr ⟨_, ?_, ?_, hcuts.keeps.sublist⟩⟩
    · rw [hswapped, hcuts.count]
    · rw [hcuts.solid, hcuts.added]

/-- The second import goes with its line, the third leaves the line on which it stands. -/
example : (Swap.default.swapImport ("import NavBar from '@/components/NavBar'\r\na\r\n" ++
      "  import NavBar from \"@/components/NavBar\"; \r\nb import NavBar from '@/components/NavBar'").toList) =
    .ok (some ("import AppShell from \"@/components/AppShell\";\r\na\r\nb ".toList, 3)) := by cbv

end Swap

end Rewrap
