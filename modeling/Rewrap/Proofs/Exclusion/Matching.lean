import Rewrap.Exclusion.Glob
import Rewrap.Proofs.Except

/-! # What a pattern matches

A pattern whose brackets are quoted means what its text says: `?`, `*` and `**` stand for other
texts, and every other character stands for itself, brackets included. The stars that are read just
before the rest of a pattern belong to what it means, and that is what the induction over its
characters carries. -/

namespace Rewrap.Glob

variable {c : Char} {p t s : Text} {tokens rest : List Token} {position stars : Nat}
  {atStart : Bool}

/-! ## The meaning of a pattern -/

/-- Some directories, each with the slash behind it. -/
def AreDirectories (s : Text) : Prop := s = [] ∨ s.getLast? = some '/'

/-- The pattern character stands for the character. -/
def Fits (c d : Char) : Prop := c = '?' ∨ c = d

/-- The pattern, in which only `?`, `*` and `**` are special, matches the whole text. -/
inductive Matches : Text → Text → Prop where
  | nil : Matches [] []
  | char {p t : Text} (c : Char) (hstar : c ≠ '*') (hmark : c ≠ '?') : Matches p t →
      Matches (c :: p) (c :: t)
  | anyChar {p t : Text} (d : Char) : Matches p t → Matches ('?' :: p) (d :: t)
  | anyText {p t : Text} (s : Text) (hp : p.head? ≠ some '*') : Matches p t →
      Matches ('*' :: p) (s ++ t)
  | directories {p t : Text} (s : Text) (hs : AreDirectories s) :
      Matches p t → Matches ('*' :: '*' :: '/' :: p) (s ++ t)
  | anything (t : Text) : Matches ['*', '*'] t

theorem matches_nil_iff : Matches [] t ↔ t = [] := by
  constructor
  · intro h
    cases h
    rfl
  · rintro rfl
    exact .nil

theorem matches_cons_iff (hc : c ≠ '*') :
    Matches (c :: p) t ↔ ∃ d u, t = d :: u ∧ Fits c d ∧ Matches p u := by
  constructor
  · intro h
    cases h with
    | char _ _ _ h => exact ⟨c, _, rfl, .inr rfl, h⟩
    | anyChar d h => exact ⟨d, _, rfl, .inl rfl, h⟩
    | anyText => exact absurd rfl hc
    | directories => exact absurd rfl hc
    | anything => exact absurd rfl hc
  · rintro ⟨d, u, rfl, hfits, h⟩
    by_cases hmark : c = '?'
    · subst hmark
      exact .anyChar d h
    · obtain rfl : c = d := hfits.resolve_left hmark
      exact .char c hc hmark h

theorem matches_star_iff (hp : p.head? ≠ some '*') :
    Matches ('*' :: p) t ↔ ∃ s u, t = s ++ u ∧ Matches p u := by
  constructor
  · intro h
    cases h with
    | char _ hstar => exact absurd rfl hstar
    | anyText s _ h => exact ⟨s, _, rfl, h⟩
    | directories => exact absurd rfl hp
    | anything => exact absurd rfl hp
  · rintro ⟨s, u, rfl, h⟩
    exact .anyText s hp h

theorem matches_directories_iff :
    Matches ('*' :: '*' :: '/' :: p) t ↔ ∃ s u, t = s ++ u ∧ AreDirectories s ∧
      Matches p u := by
  constructor
  · intro h
    cases h with
    | char _ hstar => exact absurd rfl hstar
    | anyText _ hp => exact absurd rfl hp
    | directories s hs h => exact ⟨s, _, rfl, hs, h⟩
  · rintro ⟨s, u, rfl, hs, h⟩
    exact .directories s hs h

/-! ## The meaning of tokens -/

theorem someEnd_iff {f : Text → Bool} :
    someEnd f t = true ↔ ∃ s u, t = s ++ u ∧ f u = true := by
  induction t with
  | nil => simp [someEnd]
  | cons c t ih =>
      rw [someEnd, Bool.or_eq_true, ih]
      constructor
      · rintro (h | ⟨s, u, rfl, h⟩)
        · exact ⟨[], c :: t, rfl, h⟩
        · exact ⟨c :: s, u, rfl, h⟩
      · rintro ⟨s, u, heq, h⟩
        cases s with
        | nil => exact .inl (heq ▸ h)
        | cons d s => exact .inr ⟨s, u, (List.cons.inj heq).2, h⟩

theorem afterSlash_iff {f : Text → Bool} :
    someDirectory.afterSlash f t = true ↔ ∃ s u, t = s ++ '/' :: u ∧ f u = true := by
  induction t with
  | nil => simp [someDirectory.afterSlash]
  | cons c t ih =>
      rw [someDirectory.afterSlash, Bool.or_eq_true, Bool.and_eq_true, beq_iff_eq, ih]
      constructor
      · rintro (⟨rfl, h⟩ | ⟨s, u, rfl, h⟩)
        · exact ⟨[], t, rfl, h⟩
        · exact ⟨c :: s, u, rfl, h⟩
      · rintro ⟨s, u, heq, h⟩
        cases s with
        | nil =>
            obtain ⟨rfl, rfl⟩ := List.cons.inj heq
            exact .inl ⟨rfl, h⟩
        | cons d s => exact .inr ⟨s, u, (List.cons.inj heq).2, h⟩

theorem someDirectory_iff {f : Text → Bool} :
    someDirectory f t = true ↔ ∃ s u, t = s ++ u ∧ AreDirectories s ∧ f u = true := by
  have hunfold : someDirectory f t = true ↔ f t = true ∨
      someDirectory.afterSlash f t = true := by
    cases t with
    | nil => simp [someDirectory, someDirectory.afterSlash]
    | cons c t => rw [someDirectory, Bool.or_eq_true]
  rw [hunfold, afterSlash_iff]
  constructor
  · rintro (h | ⟨s, u, rfl, h⟩)
    · exact ⟨[], t, rfl, .inl rfl, h⟩
    · exact ⟨s ++ ['/'], u, by simp, .inr (by simp), h⟩
  · rintro ⟨s, u, rfl, rfl | hs, h⟩
    · exact .inl h
    · obtain ⟨s, rfl⟩ := List.getLast?_eq_some_iff.mp hs
      exact .inr ⟨s, u, by simp, h⟩

theorem AreDirectories.append {s s' : Text} (hs : AreDirectories s) (hs' : AreDirectories s') :
    AreDirectories (s ++ s') := by
  rcases hs' with rfl | hs'
  · rwa [List.append_nil]
  · exact .inr (by rw [List.getLast?_append, hs', Option.some_or])

/-- Directories in front of tokens that begin with directories change nothing. -/
theorem matchTokens_consDirectories (hne : tokens ≠ []) :
    matchTokens (consDirectories tokens) t = true ↔
      ∃ s u, t = s ++ u ∧ AreDirectories s ∧ matchTokens tokens u = true := by
  unfold consDirectories
  split
  · next tokens =>
      constructor
      · exact fun h => ⟨[], t, rfl, .inl rfl, h⟩
      · rintro ⟨s, u, rfl, hs, h⟩
        cases tokens with
        | nil => rfl
        | cons tok tokens =>
            rw [matchTokens, someDirectory_iff] at h ⊢
            · obtain ⟨s', v, rfl, hs', h⟩ := h
              exact ⟨s ++ s', v, by simp, hs.append hs', h⟩
            · simp
            · simp
  · rw [matchTokens, someDirectory_iff]
    exact hne

/-- The token matches one character, which the pattern character stands for. -/
def Token.IsFor (tok : Token) (c : Char) : Prop :=
  ∀ tokens t, matchTokens (tok :: tokens) t = true ↔ ∃ d u, t = d :: u ∧ Fits c d ∧
    matchTokens tokens u = true

theorem isFor_charToken (c : Char) : (charToken c).IsFor c := by
  intro tokens t
  unfold charToken
  by_cases hmark : c = '?'
  · cases t <;> simp [hmark, matchTokens, Fits]
  · cases t <;> simp [hmark, matchTokens, Fits]

theorem isFor_oneOf (hc : c ≠ '?') : (Token.oneOf ⟨false, [(c, c)]⟩).IsFor c := by
  intro tokens t
  cases t with
  | nil => simp [matchTokens]
  | cons d t =>
      have hlisted : CharClass.contains ⟨false, [(c, c)]⟩ d = true ↔ c = d := by
        simpa [CharClass.contains] using
          ⟨fun h => Char.le_antisymm h.1 h.2, fun h => by simp [h]⟩
      rw [matchTokens, Bool.and_eq_true, hlisted]
      simp [Fits, hc]

/-! ## Reading a quoted pattern -/

theorem starTokens_eq_ok {next : Option Char} {wildcard : List Token}
    (h : starTokens position stars atStart next = .ok wildcard) :
    (stars = 0 ∧ wildcard = []) ∨ (stars = 1 ∧ wildcard = [.anyText]) ∨
      (stars = 2 ∧ wildcard = [.anyDirectories] ∧ next.all (· == '/') = true) := by
  unfold starTokens at h
  split at h
  · exact .inl ⟨rfl, by simpa using h.symm⟩
  · exact .inr (.inl ⟨rfl, by simpa using h.symm⟩)
  · split at h
    · cases h
    · split at h
      · next hnext => exact .inr (.inr ⟨rfl, by simpa using h.symm, hnext⟩)
      · cases h
  · cases h

theorem starTokens_congr {next next' : Char} (h : next ≠ '/') (h' : next' ≠ '/') :
    starTokens position stars atStart (some next) =
      starTokens position stars atStart (some next') := by
  simp [starTokens, h, h']

/-- A quoted bracket is read as a class that lists it alone. -/
theorem tokensFrom_quoted (hc : c = '[' ∨ c = ']') (q : Text) :
    tokensFrom position stars atStart 0 ('[' :: c :: ']' :: q) = (do
      let wildcard ← starTokens position stars atStart (some c)
      let rest ← tokensFrom (position + 3) 0 false 0 q
      return wildcard ++ .oneOf ⟨false, [(c, c)]⟩ :: rest) := by
  have hread : CharClass.read? (c :: ']' :: q) = some (⟨false, [(c, c)]⟩, 2) := by
    rcases hc with rfl | rfl <;> simp [CharClass.read?, CharClass.listed?, CharClass.rangesOf]
  have hnext : starTokens position stars atStart (some '[') =
      starTokens position stars atStart (some c) := by
    rcases hc with rfl | rfl
    · rfl
    · exact starTokens_congr (by decide) (by decide)
  rw [tokensFrom, hread, hnext]
  rfl

theorem tokensFrom_quoteBrackets_cons (hc : c ≠ '*')
    (h : tokensFrom position stars atStart 0 (quoteBrackets (c :: p)) = .ok tokens) :
    ∃ (wildcard : List Token) (tok : Token) (position' : Nat) (atStart' : Bool)
        (rest : List Token),
      starTokens position stars atStart (some c) = .ok wildcard ∧ tok.IsFor c ∧
      tokensFrom position' 0 atStart' 0 (quoteBrackets p) = .ok rest ∧
      tokens = if stars = 2 then consDirectories rest else wildcard ++ tok :: rest := by
  rw [quoteBrackets, List.flatMap_cons, ← quoteBrackets] at h
  by_cases hbracket : c = '[' ∨ c = ']'
  · have hquoted : (if c == '[' || c == ']' then ['[', c, ']'] else [c]) = ['[', c, ']'] :=
      if_pos (by simpa using hbracket)
    rw [hquoted] at h
    change tokensFrom position stars atStart 0 ('[' :: c :: ']' :: quoteBrackets p) =
      .ok tokens at h
    rw [tokensFrom_quoted hbracket] at h
    obtain ⟨wildcard, hwildcard, h⟩ := Except.bind_eq_ok.mp h
    obtain ⟨rest, hrest, h⟩ := Except.bind_eq_ok.mp h
    have hmark : c ≠ '?' := by rcases hbracket with rfl | rfl <;> decide
    have hstars : stars ≠ 2 := by
      rcases starTokens_eq_ok hwildcard with ⟨h0, -⟩ | ⟨h1, -⟩ | ⟨-, -, hslash⟩
      · omega
      · omega
      · rcases hbracket with rfl | rfl <;> simp at hslash
    refine ⟨wildcard, _, _, _, rest, hwildcard, isFor_oneOf hmark, hrest, ?_⟩
    rw [if_neg hstars]
    exact (Except.ok.inj h).symm
  · have hplain : (if c == '[' || c == ']' then ['[', c, ']'] else [c]) = [c] :=
      if_neg (by simpa using hbracket)
    rw [hplain, List.singleton_append, tokensFrom] at h
    · obtain ⟨wildcard, hwildcard, h⟩ := Except.bind_eq_ok.mp h
      obtain ⟨rest, hrest, h⟩ := Except.bind_eq_ok.mp h
      refine ⟨wildcard, _, _, _, rest, hwildcard, isFor_charToken c, hrest, ?_⟩
      simpa using (Except.ok.inj h).symm
    · exact hc
    · exact fun h => hbracket (.inl h)

/-- Only an empty pattern has no tokens. -/
theorem eq_nil_of_tokensFrom (h : tokensFrom position stars atStart 0 (quoteBrackets p) = .ok []) :
    stars = 0 ∧ p = [] := by
  induction p generalizing position stars atStart with
  | nil =>
      rcases starTokens_eq_ok h with ⟨h0, -⟩ | ⟨-, h⟩ | ⟨-, h, -⟩
      · exact ⟨h0, rfl⟩
      · cases h
      · cases h
  | cons c p ih =>
      by_cases hc : c = '*'
      · subst hc
        exact absurd (ih h).1 (Nat.succ_ne_zero stars)
      · obtain ⟨wildcard, tok, _, _, rest, -, -, -, heq⟩ := tokensFrom_quoteBrackets_cons hc h
        split at heq
        · unfold consDirectories at heq
          split at heq <;> cases heq
        · simp at heq

/-- What is read of the rest of a pattern matches what the stars before it and the rest do. -/
theorem matchTokens_iff (h : tokensFrom position stars atStart 0 (quoteBrackets p) = .ok tokens)
    (hend : ¬ ['*', '*', '/'] <:+ List.replicate stars '*' ++ p) :
    matchTokens tokens t = true ↔ Matches (List.replicate stars '*' ++ p) t := by
  induction p generalizing position stars atStart tokens t with
  | nil =>
      rcases starTokens_eq_ok h with ⟨rfl, rfl⟩ | ⟨rfl, rfl⟩ | ⟨rfl, rfl, -⟩
      · simp [matchTokens, matches_nil_iff]
      · rw [matchTokens, someEnd_iff, List.append_nil]
        exact ⟨fun _ => matches_star_iff (by simp) |>.mpr ⟨t, [], by simp, .nil⟩,
          fun _ => ⟨t, [], by simp, rfl⟩⟩
      · exact ⟨fun _ => .anything t, fun _ => rfl⟩
  | cons c p ih =>
      by_cases hc : c = '*'
      · subst hc
        have hstars : List.replicate stars '*' ++ '*' :: p =
            List.replicate (stars + 1) '*' ++ p := by
          rw [List.replicate_succ', List.append_assoc, List.singleton_append]
        rw [hstars] at hend ⊢
        exact ih h hend
      · obtain ⟨wildcard, tok, _, _, rest, hwildcard, hfor, hrest, rfl⟩ :=
          tokensFrom_quoteBrackets_cons hc h
        have hp : ¬ ['*', '*', '/'] <:+ p := fun hp =>
          hend (hp.trans ((List.suffix_cons c p).trans (List.suffix_append _ _)))
        have ihp : ∀ {u}, matchTokens rest u = true ↔ Matches p u := ih hrest hp
        rcases starTokens_eq_ok hwildcard with ⟨rfl, rfl⟩ | ⟨rfl, rfl⟩ |
          ⟨rfl, rfl, hslash⟩
        · rw [if_neg (by decide), List.nil_append, hfor]
          simp only [ihp]
          exact (matches_cons_iff hc).symm
        · have hhead : (c :: p).head? ≠ some '*' := by simpa using hc
          rw [if_neg (by decide), List.singleton_append, matchTokens, someEnd_iff]
          simp only [hfor _ _, ihp]
          simp only [← matches_cons_iff hc]
          exact (matches_star_iff hhead).symm
        · obtain rfl : c = '/' := by simpa using hslash
          have hne : rest ≠ [] := by
            rintro rfl
            obtain ⟨-, rfl⟩ := eq_nil_of_tokensFrom hrest
            exact hend (List.suffix_refl _)
          rw [if_pos rfl, matchTokens_consDirectories hne]
          simp only [ihp]
          exact matches_directories_iff.symm

/-- A quoted pattern matches what its text says, unless nothing follows the slash behind its last
stars. -/
theorem accepts_iff {g : Glob} (h : ofText (quoteBrackets p) = .ok g)
    (hend : ¬ ['*', '*', '/'] <:+ p) : g.accepts t = true ↔ Matches p t := by
  unfold ofText at h
  cases htokens : tokensFrom 0 0 true 0 (quoteBrackets p) with
  | error e => simp [htokens] at h
  | ok tokens =>
      obtain rfl : Glob.mk tokens = g := by simpa [htokens] using h
      exact matchTokens_iff htokens hend

end Rewrap.Glob
