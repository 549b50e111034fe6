import Mathlib.Data.List.TakeWhile
import Rewrap.Import
import Rewrap.Proofs.Text.Search

/-! # Spellings of an import

The texts that an import can be written as, and the two patterns said through them. -/

namespace Rewrap

/-- White space, at least one character of it. -/
def IsGap (g : Text) : Prop := g ≠ [] ∧ ∀ c ∈ g, isWhiteSpace c = true

def IsQuote (c : Char) : Prop := c = '"' ∨ c = '\''

namespace Pattern

variable {next : Text → Option Text}

theorem gap_eq_some {t r : Text} (h : gap next t = some r) :
    ∃ g u, IsGap g ∧ t = g ++ u ∧ next u = some r := by
  induction t with
  | nil => simp [gap] at h
  | cons c t ih =>
      unfold gap at h
      split at h
      · next hc =>
          split at h
          · next rest hrest =>
              obtain ⟨g, u, hg, rfl, hu⟩ := ih (hrest.trans h)
              exact ⟨c :: g, u, ⟨by simp, by simpa [hc] using hg.2⟩, rfl, hu⟩
          · exact ⟨[c], t, ⟨by simp, by simpa using hc⟩, rfl, h⟩
      · simp at h

/-- What cannot begin with white space is read after all the white space there is. -/
theorem gap_append {g u : Text} (hg : IsGap g)
    (hnext : ∀ c v, isWhiteSpace c = true → next (c :: v) = none)
    (hu : ∀ c ∈ u.head?, isWhiteSpace c = false) : gap next (g ++ u) = next u := by
  obtain ⟨hne, hws⟩ := hg
  induction g with
  | nil => exact absurd rfl hne
  | cons c g ih =>
      have hc : isWhiteSpace c = true := hws c (by simp)
      cases g with
      | nil =>
          have hnone : gap next u = none := by
            cases u with
            | nil => rfl
            | cons d u => simp [gap, hu d (by simp)]
          simp [gap, hc, hnone]
      | cons d g =>
          have hrest : gap next (d :: g ++ u) = next u :=
            ih (by simp) fun e he => hws e (by simp [he])
          have hd : next (d :: g ++ u) = none := hnext d (g ++ u) (hws d (by simp))
          rw [List.cons_append, gap, if_pos hc, hrest, hd]
          cases next u <;> rfl

theorem quote_eq_some {t r : Text} (h : quote next t = some r) :
    ∃ q u, IsQuote q ∧ t = q :: u ∧ next u = some r := by
  cases t with
  | nil => simp [quote] at h
  | cons c t =>
      simp only [quote, Bool.or_eq_true, beq_iff_eq] at h
      split at h
      · next hc => exact ⟨c, t, hc, rfl, h⟩
      · simp at h

theorem quote_cons {q : Char} (hq : IsQuote q) (u : Text) : quote next (q :: u) = next u := by
  simp only [quote, Bool.or_eq_true, beq_iff_eq]
  exact if_pos hq

theorem quote_eq_none {c : Char} (hc : isWhiteSpace c = true) (u : Text) :
    quote next (c :: u) = none := by
  have hd : ¬(c = '"' ∨ c = '\'') := by
    rintro (rfl | rfl) <;> exact absurd hc (by decide)
  simp only [quote, Bool.or_eq_true, beq_iff_eq]
  exact if_neg hd

end Pattern

namespace Import

/-- The text is one spelling of the import, up to its closing quote. -/
def IsSpelling (i : Import) (m : Text) : Prop :=
  ∃ g₁ g₂ g₃ q₁ q₂, IsGap g₁ ∧ IsGap g₂ ∧ IsGap g₃ ∧
    IsQuote q₁ ∧ IsQuote q₂ ∧
    m = "import".toList ++ (g₁ ++ (i.name.toList ++ (g₂ ++ ("from".toList ++ (g₃ ++
      (q₁ :: (i.module.toList ++ [q₂])))))))

/-- The name has a character, and none that is white space. -/
def IsNamed (i : Import) : Prop :=
  i.name.toList ≠ [] ∧ ∀ c ∈ i.name.toList, isWhiteSpace c = false

variable {i : Import} {next : Text → Option Text}

theorem spelling_eq_some {t r : Text} (h : i.spelling next t = some r) :
    ∃ m u, i.IsSpelling m ∧ t = m ++ u ∧ next u = some r := by
  obtain ⟨t₁, rfl, h₁⟩ := Pattern.word_eq_some h
  obtain ⟨g₁, t₂, hg₁, rfl, h₂⟩ := Pattern.gap_eq_some h₁
  obtain ⟨t₃, rfl, h₃⟩ := Pattern.word_eq_some h₂
  obtain ⟨g₂, t₄, hg₂, rfl, h₄⟩ := Pattern.gap_eq_some h₃
  obtain ⟨t₅, rfl, h₅⟩ := Pattern.word_eq_some h₄
  obtain ⟨g₃, t₆, hg₃, rfl, h₆⟩ := Pattern.gap_eq_some h₅
  obtain ⟨q₁, t₇, hq₁, rfl, h₇⟩ := Pattern.quote_eq_some h₆
  obtain ⟨t₈, rfl, h₈⟩ := Pattern.word_eq_some h₇
  obtain ⟨q₂, u, hq₂, rfl, h₉⟩ := Pattern.quote_eq_some h₈
  exact ⟨_, u, ⟨g₁, g₂, g₃, q₁, q₂, hg₁, hg₂, hg₃, hq₁, hq₂, rfl⟩,
    by simp, h₉⟩

/-- A spelling is read in one way only. -/
theorem spelling_append (hi : i.IsNamed) {m : Text} (hm : i.IsSpelling m) (u : Text) :
    i.spelling next (m ++ u) = next u := by
  obtain ⟨g₁, g₂, g₃, q₁, q₂, hg₁, hg₂, hg₃, hq₁, hq₂, rfl⟩ := hm
  obtain ⟨hne, hname⟩ := hi
  obtain ⟨c, n, hn⟩ := List.exists_cons_of_ne_nil hne
  rw [hn] at hname ⊢
  have hfrom : "from".toList = 'f' :: "rom".toList := by decide
  simp only [spelling, hn, hfrom, List.append_assoc, List.cons_append, Pattern.word_append]
  have hc : isWhiteSpace c = false := hname c (by simp)
  rw [Pattern.gap_append hg₁ _ (by simpa using hc), ← List.cons_append, Pattern.word_append,
    Pattern.gap_append hg₂ _ (by simp; decide), ← List.cons_append, Pattern.word_append,
    Pattern.gap_append hg₃ (fun d v hd => Pattern.quote_eq_none hd v), Pattern.quote_cons hq₁,
    Pattern.word_append, Pattern.quote_cons hq₂, List.nil_append]
  · rcases hq₁ with rfl | rfl <;> simp <;> decide
  · intro d v hd
    apply Pattern.word_eq_none
    rintro rfl
    exact absurd hd (by decide)
  · intro d v hd
    apply Pattern.word_eq_none
    rintro rfl
    simp [hc] at hd

theorem clause_eq_some {prev : Option Char} {t rest : Text} (h : i.clause prev t = some rest) :
    ∃ m, i.IsSpelling m ∧ t = m ++ rest := by
  obtain ⟨m, u, hm, rfl, hu⟩ := spelling_eq_some h
  cases hu
  exact ⟨m, hm, rfl⟩

theorem clause_append (hi : i.IsNamed) {m : Text} (hm : i.IsSpelling m) (prev : Option Char)
    (rest : Text) : i.clause prev (m ++ rest) = some rest :=
  spelling_append hi hm rest

theorem statement_append (hi : i.IsNamed) {m : Text} (hm : i.IsSpelling m) (prev : Option Char)
    (u : Text) : i.statement prev (m ++ u) = some (dropTerminator u) :=
  spelling_append hi hm u

/-- A text holds an import if a spelling of it is part of the text. -/
theorem clause_occursIn_iff (hi : i.IsNamed) {t : Text} :
    i.clause.occursIn t = true ↔ ∃ m, i.IsSpelling m ∧ m <:+: t := by
  rw [Pattern.occursIn_eq_true_iff]
  constructor
  · rintro ⟨a, b, rfl, h⟩
    obtain ⟨rest, hrest⟩ := Option.isSome_iff_exists.mp h
    obtain ⟨m, hm, rfl⟩ := clause_eq_some hrest
    exact ⟨m, hm, a, rest, by simp⟩
  · rintro ⟨m, hm, a, b, rfl⟩
    exact ⟨a, m ++ b, by simp, by simp [clause_append hi hm]⟩

/-! ## Terminators -/

/-- The blanks and the semicolon, if any, that end a statement. -/
def IsTerminator (e : Text) : Prop :=
  ∃ blanks, (∀ c ∈ blanks, Text.isBlank c = true) ∧ (e = blanks ∨ e = blanks ++ [';'])

theorem dropTerminator_spec (u : Text) : ∃ e, IsTerminator e ∧ u = e ++ dropTerminator u := by
  have hsplit : u = u.takeWhile Text.isBlank ++ u.dropIndent :=
    (List.takeWhile_append_dropWhile).symm
  have hblank : ∀ c ∈ u.takeWhile Text.isBlank, Text.isBlank c = true := fun c hc =>
    List.mem_takeWhile_imp hc
  unfold dropTerminator
  split
  · next rest hrest =>
      refine ⟨u.takeWhile Text.isBlank ++ [';'], ⟨_, hblank, .inr rfl⟩, ?_⟩
      rw [hrest] at hsplit
      simpa using hsplit
  · exact ⟨u.takeWhile Text.isBlank, ⟨_, hblank, .inl rfl⟩, hsplit⟩

theorem statement_eq_some {prev : Option Char} {t rest : Text}
    (h : i.statement prev t = some rest) :
    ∃ m e, i.IsSpelling m ∧ IsTerminator e ∧ t = m ++ (e ++ rest) := by
  obtain ⟨m, u, hm, rfl, hu⟩ := spelling_eq_some h
  obtain ⟨e, he, heq⟩ := dropTerminator_spec u
  cases hu
  exact ⟨m, e, hm, he, by rw [← heq]⟩

/-- A whole statement: a spelling of the import and its terminator. -/
def IsStatement (i : Import) (d : Text) : Prop :=
  ∃ m e, i.IsSpelling m ∧ IsTerminator e ∧ d = m ++ e

theorem isStatement_of_reads {prev : Option Char} {d rest : Text}
    (h : i.statement prev (d ++ rest) = some rest) : i.IsStatement d := by
  obtain ⟨m, e, hm, he, heq⟩ := statement_eq_some h
  exact ⟨m, e, hm, he, (List.append_left_inj rest).mp (by simpa using heq)⟩

theorem IsSpelling.head {m : Text} (hm : i.IsSpelling m) : ∃ m', m = 'i' :: m' := by
  obtain ⟨g₁, g₂, g₃, q₁, q₂, -, -, -, -, -, rfl⟩ := hm
  exact ⟨_, rfl⟩

theorem IsStatement.head {d : Text} (hd : i.IsStatement d) : ∃ d', d = 'i' :: d' := by
  obtain ⟨m, e, hm, -, rfl⟩ := hd
  obtain ⟨m', rfl⟩ := hm.head
  exact ⟨_, rfl⟩

theorem IsSpelling.last {m : Text} (hm : i.IsSpelling m) :
    ∃ m' q, IsQuote q ∧ m = m' ++ [q] := by
  obtain ⟨g₁, g₂, g₃, q₁, q₂, -, -, -, -, hq₂, rfl⟩ := hm
  refine ⟨"import".toList ++ (g₁ ++ (i.name.toList ++ (g₂ ++ ("from".toList ++ (g₃ ++
    (q₁ :: i.module.toList)))))), q₂, hq₂, ?_⟩
  simp

theorem statement_proper (i : Import) : Pattern.Proper i.statement := by
  refine ⟨fun {prev t rest} h => ?_⟩
  obtain ⟨m, e, hm, -, rfl⟩ := statement_eq_some h
  obtain ⟨m', rfl⟩ := hm.head
  exact ⟨'i' :: m' ++ e, by simp, by simp⟩

theorem IsSpelling.mem {m : Text} (hm : i.IsSpelling m) {c : Char} (hc : c ∈ m) :
    c ∈ "importfrom\"'".toList ∨ c ∈ i.name.toList ∨ c ∈ i.module.toList ∨
      isWhiteSpace c = true := by
  obtain ⟨g₁, g₂, g₃, q₁, q₂, hg₁, hg₂, hg₃, hq₁, hq₂, rfl⟩ := hm
  have hquote : ∀ q, IsQuote q → q ∈ "importfrom\"'".toList := by
    rintro q (rfl | rfl) <;> decide
  have himport : ∀ d ∈ "import".toList, d ∈ "importfrom\"'".toList := by simp
  have hfrom : ∀ d ∈ "from".toList, d ∈ "importfrom\"'".toList := by simp
  simp only [List.mem_append, List.mem_cons, List.not_mem_nil, or_false] at hc
  rcases hc with hc | hc | hc | hc | hc | hc | rfl | hc | rfl
  · exact .inl (himport c hc)
  · exact .inr (.inr (.inr (hg₁.2 c hc)))
  · exact .inr (.inl hc)
  · exact .inr (.inr (.inr (hg₂.2 c hc)))
  · exact .inl (hfrom c hc)
  · exact .inr (.inr (.inr (hg₃.2 c hc)))
  · exact .inl (hquote _ hq₁)
  · exact .inr (.inr (.inl hc))
  · exact .inl (hquote _ hq₂)

end Import

end Rewrap
