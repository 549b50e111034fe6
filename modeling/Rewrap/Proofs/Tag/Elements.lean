import Rewrap.Proofs.Text.Lines
import Rewrap.Proofs.Text.Places

/-! # Tags of elements

An opening tag is searched for without its attributes being read: the search takes the first angle
bracket behind the name for the end of the tag. What that makes of a whole tag, whose attributes may
hold angle brackets themselves. -/

namespace Rewrap.Tag

/-! ## Opening tags -/

theorem opening_eq_some {name : String} {prev : Option Char} {t rest : Text}
    (h : opening name prev t = some rest) :
    ∃ inner, (∀ c ∈ inner, isInner c = true) ∧ isAttributes inner = true ∧
      t = '<' :: name.toList ++ (inner ++ '>' :: rest) := by
  obtain ⟨u, hu, h⟩ := Option.bind_eq_some_iff.mp h
  have hu := List.isPrefixOf?_eq_some_iff_append_eq.mp hu
  split at h
  · next rest' hrest =>
      split at h
      · next hattributes =>
          cases h
          refine ⟨u.takeWhile isInner, fun c hc => List.mem_takeWhile_imp hc, hattributes, ?_⟩
          rw [← hu, ← hrest, List.takeWhile_append_dropWhile]
      · simp at h
  · simp at h

theorem opening_proper (name : String) : Pattern.Proper (opening name) := by
  refine ⟨fun {prev t rest} h => ?_⟩
  obtain ⟨inner, -, -, rfl⟩ := opening_eq_some h
  exact ⟨'<' :: name.toList ++ (inner ++ ['>']), by simp, by simp⟩

/-! ## Attributes -/

/-- Whether the braces of the text match one another, where `depth` of them are open before it. -/
def bracesMatch (depth : Nat) : Text → Bool
  | [] => depth == 0
  | c :: t =>
      if c = '{' then bracesMatch (depth + 1) t
      else if c = '}' then depth != 0 && bracesMatch (depth - 1) t
      else bracesMatch depth t

/-- A character that may stand in a name. -/
def isNameChar (c : Char) : Bool :=
  !isWhiteSpace c && isInner c && c != '/' && c != '=' && c != '"' && c != '\'' &&
    c != '{' && c != '}'

/-- The name of an element or of an attribute. -/
def IsName (n : Text) : Prop := n ≠ [] ∧ ∀ c ∈ n, isNameChar c = true

instance : DecidablePred IsName := fun n =>
  decidable_of_iff (n ≠ [] ∧ n.all isNameChar = true) (by simp [IsName])

/-- An attribute: a name, alone or with a value in quotes or in braces. -/
inductive IsAttribute : Text → Prop where
  | bare {n} (name : IsName n) : IsAttribute n
  | quoted {n l r v q} (name : IsName n) (left : Text.IsSpace l) (right : Text.IsSpace r)
      (quote : q = '"' ∨ q = '\'') (value : q ∉ v) :
      IsAttribute (n ++ l ++ '=' :: r ++ q :: v ++ [q])
  | braced {n l r e} (name : IsName n) (left : Text.IsSpace l) (right : Text.IsSpace r)
      (value : bracesMatch 0 e = true) :
      IsAttribute (n ++ l ++ '=' :: r ++ '{' :: e ++ ['}'])

/-- Attributes, each behind white space of its own, and the white space that follows the last
one. -/
inductive AreAttributes : Text → Prop where
  | done {w} (space : Text.IsSpace w) : AreAttributes w
  | next {w a t} (nonempty : w ≠ []) (space : Text.IsSpace w) (first : IsAttribute a)
      (more : AreAttributes t) : AreAttributes (w ++ (a ++ t))

/-- The tag with the given name, attributes and end. -/
def element (name : String) (attributes ending : Text) : Text :=
  '<' :: name.toList ++ (attributes ++ ending)

theorem getLast?_ne_slash_of_isSpace {w : Text} (hw : Text.IsSpace w) : w.getLast? ≠ some '/' :=
  fun h => absurd (hw '/' (List.mem_of_getLast? h)) (by decide)

theorem IsAttribute.ne_nil {a : Text} (h : IsAttribute a) : a ≠ [] := by
  cases h with
  | bare name => exact name.1
  | quoted | braced => simp

theorem IsAttribute.getLast?_ne_slash {a : Text} (h : IsAttribute a) : a.getLast? ≠ some '/' := by
  cases h with
  | bare name => exact fun hlast => absurd (name.2 '/' (List.mem_of_getLast? hlast)) (by decide)
  | quoted name left right quote value =>
      rw [List.getLast?_concat]
      rcases quote with rfl | rfl <;> decide
  | braced =>
      rw [List.getLast?_concat]
      decide

theorem AreAttributes.getLast?_ne_slash {a : Text} (h : AreAttributes a) :
    a.getLast? ≠ some '/' := by
  induction h with
  | done space => exact getLast?_ne_slash_of_isSpace space
  | @next w a t nonempty space first more ih =>
      rw [List.getLast?_append_of_ne_nil _ (by simp [first.ne_nil])]
      cases t with
      | nil => simpa using first.getLast?_ne_slash
      | cons c t => rwa [List.getLast?_append_of_ne_nil _ (by simp)]

theorem AreAttributes.isWhiteSpace_head {c : Char} {a : Text} (h : AreAttributes (c :: a)) :
    isWhiteSpace c = true := by
  generalize ht : c :: a = t at h
  cases h with
  | done space => exact space c (by simp [← ht])
  | @next w b t nonempty space first more =>
      obtain ⟨d, w, rfl⟩ := List.exists_cons_of_ne_nil nonempty
      obtain ⟨rfl, -⟩ := List.cons.inj ht
      exact space c (by simp)

/-! ## The first angle bracket -/

/-- No angle bracket. -/
def IsInner (t : Text) : Prop := ∀ c ∈ t, isInner c = true

theorem isInner_append {s t : Text} : IsInner (s ++ t) ↔ IsInner s ∧ IsInner t := by
  simp [IsInner, or_imp, forall_and]

theorem isInner_cons {c : Char} {t : Text} :
    IsInner (c :: t) ↔ isInner c = true ∧ IsInner t := by
  simp [IsInner]

instance : DecidablePred IsInner := fun t =>
  decidable_of_iff (t.all isInner = true) (by simp [IsInner])

theorem isInner_of_isSpace {w : Text} (hw : Text.IsSpace w) : IsInner w := fun c hc => by
  by_contra hinner
  have hbracket : c = '<' ∨ c = '>' := by simpa [isInner, or_iff_not_imp_left] using hinner
  rcases hbracket with rfl | rfl <;> exact absurd (hw _ hc) (by decide)

theorem isInner_or_exists_bracket (t : Text) :
    IsInner t ∨ ∃ p q, IsInner p ∧ (t = p ++ '<' :: q ∨ t = p ++ '>' :: q) := by
  induction t with
  | nil => exact .inl (by simp [IsInner])
  | cons c t ih =>
      by_cases hc : isInner c = true
      · rcases ih with ht | ⟨p, q, hp, ht⟩
        · exact .inl (by simpa [IsInner, hc] using ht)
        · refine .inr ⟨c :: p, q, by simpa [IsInner, hc] using hp, ?_⟩
          exact ht.imp (congrArg (c :: ·)) (congrArg (c :: ·))
      · have hbracket : c = '<' ∨ c = '>' := by simpa [isInner, or_iff_not_imp_left] using hc
        refine .inr ⟨[], t, by simp [IsInner], ?_⟩
        exact hbracket.imp (congrArg (· :: t)) (congrArg (· :: t))

theorem first_bracket_unique {p q p' q' : Text} {b b' : Char} (hp : IsInner p) (hp' : IsInner p')
    (hb : isInner b = false) (hb' : isInner b' = false) (h : p ++ b :: q = p' ++ b' :: q') :
    p = p' ∧ b = b' := by
  have htake := congrArg (List.takeWhile isInner) h
  have hdrop := congrArg (List.dropWhile isInner) h
  simp only [List.takeWhile_append_of_pos hp, List.takeWhile_append_of_pos hp',
    List.takeWhile_cons, hb, hb', Bool.false_eq_true, if_false, List.append_nil] at htake
  simp only [List.dropWhile_append_of_pos hp, List.dropWhile_append_of_pos hp',
    List.dropWhile_cons, hb, hb', Bool.false_eq_true, if_false] at hdrop
  exact ⟨htake, (List.cons.inj hdrop).1⟩

/-! ## Reading a tag -/

theorem isAttributes_cons_iff {c : Char} {inner : Text} :
    isAttributes (c :: inner) = true ↔ isWhiteSpace c = true ∧
      (c :: inner).getLast? ≠ some '/' := by
  simp [isAttributes]

theorem AreAttributes.isAttributes {a : Text} (h : AreAttributes a) : isAttributes a = true := by
  cases a with
  | nil => rfl
  | cons c a => exact isAttributes_cons_iff.mpr ⟨h.isWhiteSpace_head, h.getLast?_ne_slash⟩

variable {name : String} {prev : Option Char} {inner rest : Text}

theorem opening_append_close (h : IsInner inner) :
    opening name prev ('<' :: name.toList ++ (inner ++ '>' :: rest)) =
      if isAttributes inner then some rest else none := by
  have hword : ('<' :: name.toList).isPrefixOf? ('<' :: name.toList ++ (inner ++ '>' :: rest)) =
      some (inner ++ '>' :: rest) := List.isPrefixOf?_eq_some_iff_append_eq.mpr rfl
  have hstop : isInner '>' = false := by decide
  simp only [opening, hword, Option.bind_eq_bind, Option.bind_some, List.dropWhile_append_of_pos h,
    List.takeWhile_append_of_pos h, List.dropWhile_cons, List.takeWhile_cons, hstop,
      List.append_nil,
    Bool.false_eq_true, if_false]

theorem opening_append_open (h : IsInner inner) :
    opening name prev ('<' :: name.toList ++ (inner ++ '<' :: rest)) = none := by
  have hword : ('<' :: name.toList).isPrefixOf? ('<' :: name.toList ++ (inner ++ '<' :: rest)) =
      some (inner ++ '<' :: rest) := List.isPrefixOf?_eq_some_iff_append_eq.mpr rfl
  have hstop : isInner '<' = false := by decide
  simp only [opening, hword, Option.bind_eq_bind, Option.bind_some, List.dropWhile_append_of_pos h,
    List.dropWhile_cons, hstop, Bool.false_eq_true, if_false]
  rfl

/-! ## Searching for a tag -/

theorem absent_append {g : Text}
    (h : ∀ z, z <:+ g → z ≠ [] → ¬('<' :: name.toList <+: z ++ rest))
    (hrest : Pattern.Absent (opening name) [] rest) :
    Pattern.Absent (opening name) [] (g ++ rest) := by
  induction g with
  | nil => exact hrest
  | cons c g ih =>
      rw [List.cons_append, Pattern.Absent.cons_iff]
      refine ⟨?_, ih fun z hz => h z (hz.trans (List.suffix_cons c g))⟩
      cases hread : opening name [].getLast? (c :: (g ++ rest)) with
      | none => rfl
      | some r =>
          obtain ⟨inner, -, -, heq⟩ := opening_eq_some hread
          exact absurd ⟨_, heq.symm⟩ (h (c :: g) List.suffix_rfl (by simp))

theorem absent_append_of_not_mem {g : Text} (hg : '<' ∉ g)
    (hrest : Pattern.Absent (opening name) [] rest) :
    Pattern.Absent (opening name) [] (g ++ rest) := by
  refine absent_append (fun z hz hne hbegins => hg ?_) hrest
  obtain ⟨c, z, rfl⟩ := List.exists_cons_of_ne_nil hne
  obtain ⟨rfl, -⟩ := List.cons_prefix_cons.mp hbegins
  exact hz.subset (by simp)

theorem IsName.not_mem {n : Text} (h : IsName n) {c : Char} (hc : isNameChar c = false) :
    c ∉ n := by
  intro hmem
  simp [h.2 c hmem] at hc

/-- The search ends where it begins if the tag is read there. -/
theorem first?_eq_some_iff {m : Text} :
    (opening name).first? (m ++ rest) = some ⟨[], m, rest⟩ ↔
      opening name none (m ++ rest) = some rest := by
  constructor
  · intro h
    obtain ⟨-, -, -, -, hread, -⟩ := Pattern.findAfter?_eq_some (opening_proper name) h
    exact hread
  · exact Pattern.findAfter?_of_absentBefore (Pattern.absentBefore_nil [] _)

/-- In a self-closing tag whose attributes do not open it again, the search can stop only at the
tag's start. -/
theorem first?_selfClosing_eq_none_iff {attributes gap : Text} (hname : IsName name.toList)
    (hgap : Text.IsSpace gap) (hinside : ¬('<' :: name.toList <:+: attributes))
    (hrest : Pattern.Absent (opening name) [] rest) :
    (opening name).first? (element name attributes ('/' :: (gap ++ ['>'])) ++ rest) = none ↔
      opening name none (element name attributes ('/' :: (gap ++ ['>'])) ++ rest) = none := by
  have hending : '<' ∉ '/' :: (gap ++ ['>']) := by
    have hspace : '<' ∉ gap := fun hmem => absurd (hgap _ hmem) (by decide)
    simp [hspace]
  have hmore : Pattern.Absent (opening name) []
      (attributes ++ ('/' :: (gap ++ ['>']) ++ rest)) := by
    refine absent_append (fun z hz _ hbegins => hinside ?_) (absent_append_of_not_mem hending hrest)
    have hslash : '/' ∉ '<' :: name.toList := by simpa using hname.not_mem (by decide)
    exact (Text.prefix_of_prefix_append hslash hbegins).isInfix.trans hz.isInfix
  have htail := absent_append_of_not_mem (hname.not_mem (by decide)) hmore
  have htext : element name attributes ('/' :: (gap ++ ['>'])) ++ rest =
      '<' :: (name.toList ++ (attributes ++ ('/' :: (gap ++ ['>']) ++ rest))) := by simp [element]
  rw [htext, Pattern.first?_eq_none_iff, Pattern.Absent.cons_iff]
  exact and_iff_left htail

theorem opening_plain_iff {attributes : Text} (hattributes : AreAttributes attributes) :
    opening name none (element name attributes ['>'] ++ rest) = some rest ↔
      IsInner attributes := by
  have htext : element name attributes ['>'] ++ rest =
      '<' :: name.toList ++ (attributes ++ '>' :: rest) := by simp [element]
  rw [htext]
  constructor
  · intro hread
    obtain ⟨inner, hinner, -, heq⟩ := opening_eq_some hread
    have hparts : attributes ++ '>' :: rest = inner ++ '>' :: rest := List.append_cancel_left heq
    rwa [List.append_cancel_right hparts]
  · intro hinner
    rw [opening_append_close hinner, if_pos hattributes.isAttributes]

theorem AreAttributes.isAttributes_iff {p q : Text} (h : AreAttributes (p ++ '>' :: q)) :
    Tag.isAttributes p = true ↔ p.getLast? ≠ some '/' := by
  cases p with
  | nil => exact absurd h.isWhiteSpace_head (by decide)
  | cons c p => exact isAttributes_cons_iff.trans (and_iff_right h.isWhiteSpace_head)

theorem isAttributes_slash_iff {attributes gap : Text} (hattributes : AreAttributes attributes)
    (hgap : Text.IsSpace gap) :
    Tag.isAttributes (attributes ++ '/' :: gap) = true ↔ attributes ≠ [] ∧ gap ≠ [] := by
  cases attributes with
  | nil =>
      have hslash : isWhiteSpace '/' = false := by decide
      simp [isAttributes_cons_iff, hslash]
  | cons c a =>
      have hlast : ((c :: a) ++ '/' :: gap).getLast? ≠ some '/' ↔ gap ≠ [] := by
        rw [List.getLast?_append_of_ne_nil _ (by simp)]
        cases gap with
        | nil => simp
        | cons d gap =>
            rw [List.getLast?_cons_cons]
            exact iff_of_true (getLast?_ne_slash_of_isSpace hgap) (by simp)
      rw [List.cons_append, isAttributes_cons_iff, ← List.cons_append, hlast,
        and_iff_right hattributes.isWhiteSpace_head]
      simp

/-- A self-closing tag is not read exactly if its attributes hold no angle bracket and nothing parts
its slash from the bracket or from the name, or if the first bracket of its attributes opens or
follows a slash. -/
theorem opening_selfClosing_eq_none_iff {attributes gap : Text}
    (hattributes : AreAttributes attributes) (hgap : Text.IsSpace gap) :
    opening name none (element name attributes ('/' :: (gap ++ ['>'])) ++ rest) = none ↔
      (IsInner attributes ∧ (attributes = [] ∨ gap = [])) ∨
        ∃ p q, IsInner p ∧
          (attributes = p ++ '<' :: q ∨ attributes = p ++ '/' :: '>' :: q) := by
  rcases isInner_or_exists_bracket attributes with hinner | ⟨p, q, hp, rfl | rfl⟩
  · have htext : element name attributes ('/' :: (gap ++ ['>'])) ++ rest =
        '<' :: name.toList ++ ((attributes ++ '/' :: gap) ++ '>' :: rest) := by simp [element]
    have hslash : IsInner (attributes ++ '/' :: gap) :=
      isInner_append.mpr ⟨hinner, isInner_cons.mpr ⟨by decide, isInner_of_isSpace hgap⟩⟩
    have hnone :
        ¬∃ p q, IsInner p ∧
          (attributes = p ++ '<' :: q ∨ attributes = p ++ '/' :: '>' :: q) := by
      rintro ⟨p, q, -, rfl | rfl⟩
      · exact absurd (hinner '<' (by simp)) (by decide)
      · exact absurd (hinner '>' (by simp)) (by decide)
    rw [htext, opening_append_close hslash, or_iff_left hnone, and_iff_right hinner]
    simp only [isAttributes_slash_iff hattributes hgap, ite_eq_right_iff, reduceCtorEq, imp_false]
    rw [not_and_or, not_not, not_not]
  · have htext : element name (p ++ '<' :: q) ('/' :: (gap ++ ['>'])) ++ rest =
        '<' :: name.toList ++ (p ++ '<' :: (q ++ '/' :: (gap ++ '>' :: rest))) := by simp [element]
    rw [htext, opening_append_open hp]
    exact iff_of_true rfl (.inr ⟨p, q, hp, .inl rfl⟩)
  · have htext : element name (p ++ '>' :: q) ('/' :: (gap ++ ['>'])) ++ rest =
        '<' :: name.toList ++ (p ++ '>' :: (q ++ '/' :: (gap ++ '>' :: rest))) := by simp [element]
    rw [htext, opening_append_close hp]
    simp only [hattributes.isAttributes_iff, ite_eq_right_iff, reduceCtorEq, imp_false, not_not]
    constructor
    · intro hlast
      obtain ⟨p, rfl⟩ := List.getLast?_eq_some_iff.mp hlast
      exact .inr ⟨p, q, (isInner_append.mp hp).1, .inr (by simp)⟩
    · rintro (⟨hinner, -⟩ | ⟨p', q', hp', hopen | hclose⟩)
      · exact absurd (hinner '>' (by simp)) (by decide)
      · have hbrackets := (first_bracket_unique hp hp' (by decide) (by decide) hopen).2
        exact absurd hbrackets (by decide)
      · have hslash : IsInner (p' ++ ['/']) := isInner_append.mpr ⟨hp', by decide⟩
        have hclose : p ++ '>' :: q = p' ++ ['/'] ++ '>' :: q' := by simpa using hclose
        rw [(first_bracket_unique hp hslash (by decide) (by decide) hclose).1, List.getLast?_concat]

/-! ## Whole tags -/

/-- A whole tag, followed by a text that does not open it again. A plain tag is found as a whole
exactly if its attributes hold no angle bracket. A self-closing tag is passed over exactly if they
hold none and nothing parts its slash from the bracket or from the name, or if the first one opens
or follows a slash. A first one that closes and follows no slash is taken for the end of the tag. -/
theorem opening_element {name : String} {attributes rest : Text} (hname : IsName name.toList)
    (hattributes : AreAttributes attributes) (hrest : Pattern.Absent (opening name) [] rest) :
    ((opening name).first? (element name attributes ['>'] ++ rest) =
        some ⟨[], element name attributes ['>'], rest⟩ ↔ IsInner attributes) ∧
      (∀ gap, Text.IsSpace gap → ¬('<' :: name.toList <:+: attributes) →
        ((opening name).first? (element name attributes ('/' :: (gap ++ ['>'])) ++ rest) = none ↔
          (IsInner attributes ∧ (attributes = [] ∨ gap = [])) ∨
            ∃ p q, IsInner p ∧
              (attributes = p ++ '<' :: q ∨ attributes = p ++ '/' :: '>' :: q))) ∧
      ∀ p q ending, IsInner p → attributes = p ++ '>' :: q → p.getLast? ≠ some '/' →
        (opening name).first? (element name attributes ending ++ rest) =
          some ⟨[], element name p ['>'], q ++ ending ++ rest⟩ := by
  refine ⟨first?_eq_some_iff.trans (opening_plain_iff hattributes),
    fun gap hgap hinside => ?_, ?_⟩
  · rw [first?_selfClosing_eq_none_iff hname hgap hinside hrest,
      opening_selfClosing_eq_none_iff hattributes hgap]
  · rintro p q ending hp rfl hlast
    have htext : element name (p ++ '>' :: q) ending ++ rest =
        element name p ['>'] ++ (q ++ ending ++ rest) := by simp [element]
    have htag : element name p ['>'] ++ (q ++ ending ++ rest) =
        '<' :: name.toList ++ (p ++ '>' :: (q ++ ending ++ rest)) := by simp [element]
    rw [htext, first?_eq_some_iff, htag, opening_append_close hp,
      if_pos (hattributes.isAttributes_iff.mpr hlast)]

/-- An attribute may hold slashes and braces of its own. -/
theorem opening_element_noBracket :
    IsName "P".toList ∧ AreAttributes " at='a/b' of=\x7b\x7bx: 1\x7d\x7d".toList ∧
      Pattern.Absent (opening "P") [] "</P>".toList ∧
      ((opening "P").first?
          (element "P" " at='a/b' of=\x7b\x7bx: 1\x7d\x7d".toList ['>'] ++ "</P>".toList) =
        some ⟨[], element "P" " at='a/b' of=\x7b\x7bx: 1\x7d\x7d".toList ['>'],
          "</P>".toList⟩) ∧
      (opening "P").first?
        (element "P" " at='a/b' of=\x7b\x7bx: 1\x7d\x7d".toList ['/', '>'] ++ "</P>".toList) =
          none := by
  have hat : IsAttribute "at='a/b'".toList :=
    .quoted (n := "at".toList) (l := []) (r := []) (v := "a/b".toList) (by decide)
      (by decide) (by decide)
      (.inr rfl) (by decide)
  have hof : IsAttribute "of=\x7b\x7bx: 1\x7d\x7d".toList :=
    .braced (n := "of".toList) (l := []) (r := []) (e := "\x7bx: 1\x7d".toList)
      (by decide) (by decide)
      (by decide) (by decide)
  have hattributes : AreAttributes " at='a/b' of=\x7b\x7bx: 1\x7d\x7d".toList :=
    .next (w := [' ']) (by decide) (by decide) hat
      (.next (w := [' ']) (by decide) (by decide) hof (.done (by decide)))
  have hrest : Pattern.Absent (opening "P") [] "</P>".toList :=
    Pattern.first?_eq_none_iff.mp (by cbv)
  have hname : IsName "P".toList := by decide
  obtain ⟨hplain, hclosing, -⟩ := opening_element hname hattributes hrest
  have hinside : ¬('<' :: "P".toList <:+: " at='a/b' of=\x7b\x7bx: 1\x7d\x7d".toList) := fun h =>
    absurd (h.subset List.mem_cons_self) (by decide)
  exact ⟨hname, hattributes, hrest, hplain.mpr (by decide),
    (hclosing [] (by decide) hinside).mpr (.inl ⟨by decide, .inr rfl⟩)⟩

/-- An arrow function in an attribute ends the search in the middle of a tag, and a self-closing tag
is taken for an opening tag because of it, or because white space parts its slash from its
bracket. -/
theorem opening_element_fails :
    IsName "P".toList ∧ AreAttributes " when=\x7b() => ok\x7d".toList ∧
      AreAttributes " x".toList ∧
      closing "P" <:+: "</P>".toList ∧ Pattern.Absent (opening "P") [] "</P>".toList ∧
      (opening "P").first? (element "P" " when=\x7b() => ok\x7d".toList ['>'] ++ "</P>".toList) =
        some ⟨[], "<P when=\x7b() =>".toList, " ok\x7d></P>".toList⟩ ∧
      (opening "P").first?
          (element "P" " when=\x7b() => ok\x7d".toList ['/', '>'] ++ "</P>".toList) =
        some ⟨[], "<P when=\x7b() =>".toList, " ok\x7d/></P>".toList⟩ ∧
      (opening "P").first? (element "P" " x".toList ['/', ' ', '>'] ++ "</P>".toList) =
        some ⟨[], "<P x/ >".toList, "</P>".toList⟩ := by
  have hwhen : IsAttribute "when=\x7b() => ok\x7d".toList :=
    .braced (n := "when".toList) (l := []) (r := []) (e := "() => ok".toList)
      (by decide) (by decide)
      (by decide) (by decide)
  have hx : IsAttribute "x".toList := .bare (by decide)
  refine ⟨by decide,
    .next (w := [' ']) (by decide) (by decide) hwhen (.done (w := []) (by decide)),
    .next (w := [' ']) (by decide) (by decide) hx (.done (w := []) (by decide)), by decide,
    Pattern.first?_eq_none_iff.mp (by cbv), by cbv, by cbv, by cbv⟩

end Rewrap.Tag
