import Rewrap.Proofs.Swap.Faults
import Rewrap.Proofs.Swap.Layout

/-! # Line ends

A swap keeps the kind of line breaks that a text has. What it takes out ends behind a line break or
away from one, and what it puts in brings the line break of the text into which the wrapper goes. -/

namespace Rewrap

/-! ## Texts with CRLF only -/

namespace Text

/-- Every line feed has a carriage return before it. -/
def IsCrLf (t : Text) : Prop := ∀ a b, t = a ++ '\n' :: b → a.getLast? = some '\r'

variable {x y t : Text}

theorem IsCrLf.append (hx : IsCrLf x) (hy : IsCrLf y) : IsCrLf (x ++ y) := by
  intro a b hab
  rcases List.append_eq_append_iff.mp hab with ⟨u, rfl, hu⟩ | ⟨u, rfl, hu⟩
  · rw [List.getLast?_append, hy u b hu, Option.some_or]
  · cases u with
    | nil => simpa using hy [] b hu.symm
    | cons c u =>
        obtain ⟨rfl, -⟩ := List.cons.inj hu
        exact hx a u rfl

theorem IsCrLf.left (h : IsCrLf (x ++ y)) : IsCrLf x := fun a b hab => h a (b ++ y) (by simp [hab])

/-- Texts are put together and taken apart anywhere but inside a line break. -/
theorem isCrLf_append_iff (h : ¬SplitsCrLf x y) : IsCrLf (x ++ y) ↔ IsCrLf x ∧ IsCrLf y := by
  refine ⟨fun hxy => ⟨hxy.left, fun a b hab => ?_⟩, fun ⟨hx, hy⟩ => hx.append hy⟩
  have hreturn := hxy (x ++ a) b (by simp [hab])
  by_cases ha : a = []
  · subst ha
    exact absurd ⟨by simpa using hreturn, by simp [hab]⟩ h
  · rwa [List.getLast?_append_of_ne_nil x ha] at hreturn

theorem isCrLf_of_not_mem (h : '\n' ∉ t) : IsCrLf t := by
  rintro a b rfl
  simp at h

theorem isCrLf_lineBreak : IsCrLf ['\r', '\n'] := by
  intro a b hab
  rcases a with _ | ⟨c, _ | ⟨d, a⟩⟩
  · simp at hab
  · obtain ⟨rfl, -⟩ := List.cons.inj hab
    rfl
  · simp at hab

/-- Whether each line feed comes right behind a carriage return. -/
def hasOnlyCrLf : Text → Bool
  | '\r' :: '\n' :: t => hasOnlyCrLf t
  | c :: t => c != '\n' && hasOnlyCrLf t
  | [] => true

theorem hasOnlyCrLf_iff : t.hasOnlyCrLf = true ↔ IsCrLf t := by
  fun_induction hasOnlyCrLf t with
  | case1 t ih =>
      have hwhole : ¬SplitsCrLf ['\r', '\n'] t := fun h => by simpa using h.1
      rw [ih]
      exact (and_iff_right isCrLf_lineBreak).symm.trans (isCrLf_append_iff hwhole).symm
  | case2 c t hne ih =>
      have hwhole : ¬SplitsCrLf [c] t := by
        rintro ⟨hc, ht⟩
        obtain ⟨u, rfl⟩ := List.head?_eq_some_iff.mp ht
        exact hne u (by simpa using hc) rfl
      rw [Bool.and_eq_true, bne_iff_ne, ih, ← List.singleton_append, isCrLf_append_iff hwhole]
      refine and_congr_left fun _ => ⟨fun hc => isCrLf_of_not_mem (by simpa using hc.symm), ?_⟩
      rintro hc rfl
      simpa using hc [] [] rfl
  | case3 => exact iff_of_true rfl (isCrLf_of_not_mem (by simp))

instance : DecidablePred IsCrLf := fun t => decidable_of_iff (t.hasOnlyCrLf = true) hasOnlyCrLf_iff

/-! ## The line break of a text -/

theorem IsCrLf.lineBreak_eq (h : IsCrLf t) (hmem : '\n' ∈ t) : t.lineBreak = ['\r', '\n'] := by
  obtain ⟨a, b, rfl⟩ := List.append_of_mem hmem
  obtain ⟨a, rfl⟩ := List.getLast?_eq_some_iff.mp (h a b rfl)
  have hpair : ['\r', '\n'] <:+: a ++ ['\r'] ++ '\n' :: b := ⟨a, b, by simp⟩
  rw [lineBreak_eq_ite, if_pos hpair]

theorem lineBreak_of_not_mem (h : '\r' ∉ t) : t.lineBreak = ['\n'] := by
  rw [lineBreak_eq_ite, if_neg fun hpair => h (hpair.subset (by simp))]

theorem IsBlank.isCrLf (h : IsBlank t) : IsCrLf t := isCrLf_of_not_mem (h.not_mem (by decide))

theorem IsLayout.isCrLf {br : Text} (h : IsLayout br t) (hbr : br = ['\r', '\n']) : IsCrLf t := by
  subst hbr
  cases h with
  | blank hb => exact hb.isCrLf
  | lineBreak hb => exact isCrLf_lineBreak.append hb.isCrLf

theorem IsLayout.not_mem {br : Text} (h : IsLayout br t) (hbr : br = ['\n']) : '\r' ∉ t := by
  subst hbr
  cases h with
  | blank hb => exact hb.not_mem (by decide)
  | lineBreak hb => simpa using hb.not_mem (by decide)

theorem getLast?_append_ne {c : Char} (hx : x.getLast? ≠ some c) (hy : y.getLast? ≠ some c) :
    (x ++ y).getLast? ≠ some c := by
  rw [List.getLast?_append]
  cases hlast : y.getLast? with
  | none => simpa using hx
  | some d => simpa [hlast] using hy

theorem getLast?_ne_of_not_mem {c : Char} (h : c ∉ t) : t.getLast? ≠ some c := fun hlast =>
  h (List.mem_of_getLast? hlast)

end Text

/-! ## Cuts -/

namespace Cut

variable {tail : Text} {cs : List Cut}

theorem not_mem_result {c : Char} (h : ∀ d ∈ cs, c ∉ d.added)
    (hsource : c ∉ source tail cs) : c ∉ result tail cs := by
  induction cs with
  | nil => exact hsource
  | cons d cs ih =>
      simp only [source, List.mem_append, not_or] at hsource
      have hrest := ih (fun e he => h e (by simp [he])) hsource.2.2
      simp only [result, List.mem_append, not_or]
      exact ⟨hsource.1, h d (by simp), hrest⟩

/-- What is taken out does not end inside a line break, and what is put in has whole ones. -/
structure KeepsCrLf (c : Cut) : Prop where
  ne_nil : c.removed ≠ []
  last : c.removed.getLast? ≠ some '\r'
  added : c.added.IsCrLf

theorem isCrLf_result (h : ∀ c ∈ cs, c.KeepsCrLf) (hsource : (source tail cs).IsCrLf) :
    (result tail cs).IsCrLf := by
  induction cs with
  | nil => exact hsource
  | cons c cs ih =>
      have hc := h c (by simp)
      have hwhole : ¬Text.SplitsCrLf (c.kept ++ c.removed) (source tail cs) := fun hsplits =>
        hc.last (by simpa [List.getLast?_append_of_ne_nil _ hc.ne_nil] using hsplits.1)
      rw [source, ← List.append_assoc, Text.isCrLf_append_iff hwhole] at hsource
      have hrest := ih (fun d hd => h d (by simp [hd])) hsource.2
      exact hsource.1.left.append (hc.added.append hrest)

end Cut

theorem Import.IsLineRest.getLast?_ne {r : Text} (h : IsLineRest r) : r.getLast? ≠ some '\r' := by
  obtain ⟨b, l, hb, rfl, hl⟩ := h
  refine Text.getLast?_append_ne (Text.getLast?_ne_of_not_mem (hb.not_mem (by decide))) ?_
  rcases hl with rfl | rfl | rfl <;> decide

theorem Import.IsDropped.getLast?_ne {i : Import} {d : Text} (h : i.IsDropped d) :
    d ≠ [] ∧ d.getLast? ≠ some '\r' := by
  obtain ⟨lead, m, e, trail, rfl, hm, he, hbeside⟩ := h
  obtain ⟨m, q, hq, rfl⟩ := hm.last
  have hquote : (m ++ [q]).getLast? ≠ some '\r' := by
    rcases hq with rfl | rfl <;> simp
  have hend : e.getLast? ≠ some '\r' :=
    Text.getLast?_ne_of_not_mem (he.not_mem (by decide) (by decide))
  have hlead : lead.getLast? ≠ some '\r' := by
    rcases hbeside with ⟨rfl, -⟩ | ⟨hlead, -⟩
    · simp
    · exact Text.getLast?_ne_of_not_mem (hlead.not_mem (by decide))
  have htrail : trail.getLast? ≠ some '\r' := by
    rcases hbeside with ⟨-, rfl⟩ | ⟨-, htrail⟩
    · simp
    · exact htrail.getLast?_ne
  exact ⟨by simp, Text.getLast?_append_ne hlead
    (Text.getLast?_append_ne hquote (Text.getLast?_append_ne hend htrail))⟩

theorem Tag.IsUsageLine.getLast?_ne {name : String} {d : Text} (h : IsUsageLine name d) :
    d ≠ [] ∧ d.getLast? ≠ some '\r' := by
  obtain ⟨b, w, b', l, -, -, hb', hl, rfl⟩ := h
  have hend : (['/', '>'] ++ (b' ++ l)).getLast? ≠ some '\r' := by
    refine Text.getLast?_append_ne (by simp)
      (Text.getLast?_append_ne (Text.getLast?_ne_of_not_mem (hb'.not_mem (by decide))) ?_)
    rcases hl with rfl | rfl | rfl <;> decide
  refine ⟨by simp, ?_⟩
  rw [List.getLast?_append_of_ne_nil _ (by simp), List.getLast?_append_of_ne_nil _ (by simp),
    List.getLast?_append_of_ne_nil _ (by simp)]
  exact hend

/-! ## The wrapper -/

namespace Swap

theorem not_mem_wrapperTags (s : Swap) {c : Char} (hc : isWhiteSpace c = true) :
    c ∉ s.openTag ∧ c ∉ s.closeTag := by
  have hname : c ∉ s.spec.newComponent.toList := fun hmem =>
    absurd (s.replacement_isNamed.2 c hmem) (by simp [hc])
  have hmarks : c ≠ '<' ∧ c ≠ '/' ∧ c ≠ '>' := by
    refine ⟨?_, ?_, ?_⟩ <;> rintro rfl <;> exact absurd hc (by decide)
  simp [openTag, closeTag, Tag.closing, hname, hmarks]

theorem Wrapping.IsInReturnBlock.isLaidOut {w : Wrapping} {o c : Occurrence}
    (h : w.IsInReturnBlock o c) (ho : ReturnBlock.opening.first? w.source = some o) :
    w.IsLaidOut := by
  have hindent := Text.isBlank_indent w.inside
  obtain ⟨e, m, hafter, -, he⟩ := h.after
  refine ⟨h.openLead ▸ .blank hindent, ?_, h.closeLead ▸ .lineBreak hindent,
    h.closeTrail ▸ .blank Text.isBlank_nil, ?_, ?_⟩
  · rw [h.openTrail]
    exact Text.isLayout_self _
  · rintro ⟨hlast, -⟩
    obtain ⟨-, -, -, -, hopen, -⟩ := Pattern.findAfter?_eq_some ReturnBlock.opening_proper ho
    obtain ⟨u, v, -, -, heq⟩ := ReturnBlock.opening_eq_some hopen
    have hmatched : o.matched = ("return".toList ++ (u ++ '(' :: v)) ++ ['\n'] :=
      (List.append_left_inj o.after).mp (by simpa using heq)
    rw [h.before, hmatched, ← List.append_assoc, List.getLast?_concat] at hlast
    simp at hlast
  · rintro ⟨hlast, hhead⟩
    rcases he with rfl | ⟨-, hinside⟩
    · simp [hafter] at hhead
    · exact hinside hlast

/-- The wrapper brings the line breaks of the text into which it is put; around a return block that
has one. -/
theorem insertWrapper_laidOut {s : Swap} {t r : Text} {shape : Shape}
    (h : s.insertWrapper t shape = .ok r) :
    ∃ w : Wrapping, w.source = t ∧ w.result s = r ∧ w.IsLaidOut ∧
      (shape = .bareReturn → '\n' ∈ t) := by
  cases shape with
  | guarded tag =>
      obtain ⟨edits, hedits, h⟩ := insertWrapper_guarded_eq_ok h
      obtain ⟨w, hsource, hresult, -, hlaid⟩ := exists_wrapping_of_guardedEdits hedits h
      exact ⟨w, hsource, hresult, hlaid, by simp⟩
  | bareReturn =>
      obtain ⟨edits, hedits, -⟩ := insertWrapper_bareReturn_eq_ok h
      obtain ⟨o, c, -, -, -, ho, hc, -⟩ := bareReturnEdits_eq_ok hedits
      obtain ⟨w, hsource, hok, hplaced⟩ := exists_isInReturnBlock (s := s) ho hc
      obtain ⟨e, m, hafter, -⟩ := hplaced.after
      refine ⟨w, hsource, Except.ok.inj (hok.symm.trans h),
        hplaced.isLaidOut (hsource ▸ ho), fun _ => ?_⟩
      rw [← hsource, Wrapping.source, hafter]
      simp

namespace Wrapping

variable {s : Swap} {w : Wrapping}

theorem IsLaidOut.isCrLf_result (h : w.IsLaidOut) (hsource : w.source.IsCrLf)
    (hmem : '\n' ∈ w.source) : (w.result s).IsCrLf := by
  have hbreak := hsource.lineBreak_eq hmem
  obtain ⟨hopen, hclose⟩ := s.not_mem_wrapperTags (c := '\n') (by decide)
  obtain ⟨hbefore, hrest⟩ := (Text.isCrLf_append_iff h.opened).mp hsource
  obtain ⟨hinside, hafter⟩ := (Text.isCrLf_append_iff h.closed).mp hrest
  have hopened : (w.openLead ++ s.openTag ++ w.openTrail).IsCrLf :=
    ((h.openLead.isCrLf hbreak).append (Text.isCrLf_of_not_mem hopen)).append
      (h.openTrail.isCrLf hbreak)
  have hclosed : (w.closeLead ++ s.closeTag ++ w.closeTrail).IsCrLf :=
    ((h.closeLead.isCrLf hbreak).append (Text.isCrLf_of_not_mem hclose)).append
      (h.closeTrail.isCrLf hbreak)
  exact hbefore.append (hopened.append (hinside.append (hclosed.append hafter)))

theorem IsLaidOut.not_mem_result (h : w.IsLaidOut) (hsource : '\r' ∉ w.source) :
    '\r' ∉ w.result s := by
  have hbreak := Text.lineBreak_of_not_mem hsource
  obtain ⟨hopen, hclose⟩ := s.not_mem_wrapperTags (c := '\r') (by decide)
  simp only [source, List.mem_append, not_or] at hsource
  simp [result, hsource, hopen, hclose, h.openLead.not_mem hbreak, h.openTrail.not_mem hbreak,
    h.closeLead.not_mem hbreak, h.closeTrail.not_mem hbreak]

end Wrapping

/-! ## The whole swap -/

namespace Clearing

variable {s : Swap} {t : Text} (c : Clearing s t)

theorem added_eq {e : Cut} (he : e ∈ c.first :: c.others) :
    e.added = [] ∨ e.added = s.spec.replacement.canonical.toList := by
  rcases List.mem_cons.mp he with rfl | he
  · rw [c.imports.added]
    split <;> simp
  · exact .inl (c.imports.added_others e he)

theorem not_mem_stripped {d : Char} (hadded : d ∉ s.spec.replacement.canonical.toList)
    (ht : d ∉ t) : d ∉ c.stripped := by
  refine Cut.not_mem_result (fun e he => by simp [(c.usageLines e he).1]) ?_
  rw [← c.swapped]
  refine Cut.not_mem_result (fun e he => ?_) (c.imports.source ▸ ht)
  rcases c.added_eq he with h | h <;> simp [h, hadded]

/-- Imports and usage tags are taken out with whole line breaks, or with none. -/
theorem isCrLf_stripped (hadded : Text.IsCrLf s.spec.replacement.canonical.toList) (ht : t.IsCrLf) :
    c.stripped.IsCrLf := by
  have hnil : Text.IsCrLf [] := Text.isCrLf_of_not_mem (by simp)
  refine Cut.isCrLf_result (fun e he => ?_) ?_
  · obtain ⟨hadd, hline⟩ := c.usageLines e he
    exact ⟨hline.getLast?_ne.1, hline.getLast?_ne.2, hadd ▸ hnil⟩
  · rw [← c.swapped]
    refine Cut.isCrLf_result (fun e he => ?_) (c.imports.source ▸ ht)
    have hdropped := (c.imports.cuts e he).1.getLast?_ne
    have hbrought : e.added.IsCrLf := by
      rcases c.added_eq he with h | h <;> rw [h]
      · exact hnil
      · exact hadded
    exact ⟨hdropped.1, hdropped.2, hbrought⟩

end Clearing

/-- A swap brings no carriage return into a text that has none. A text in which every line break is
CRLF keeps that, as long as there is a line break where a wrapper inside a guard looks for one: in
the text without the imports and the usage tags. -/
theorem default_apply_lineEnds {t : Text} {r : Swapped} (h : Swap.default.apply t = .ok r) :
    ('\r' ∉ t → '\r' ∉ r.text) ∧
      (t.IsCrLf →
        (∀ tag u, r.shape = some (.guarded tag) → Swap.default.Strips t u → '\n' ∈ u) →
          r.text.IsCrLf) := by
  rcases isFreeOf_or_clearing Swap.default t with hfree | ⟨⟨c⟩⟩
  · rw [apply_of_isFreeOf hfree] at h
    cases h
    exact ⟨id, fun ht _ => ht⟩
  · rw [c.apply_eq] at h
    obtain ⟨hwrapped, -, hr⟩ := Clearing.finish_eq_ok h
    obtain ⟨w, hsource, hresult, hlaid, hbare⟩ := insertWrapper_laidOut hwrapped
    have hshape : r.shape = some (Swap.default.detectShape c.stripped) := by rw [hr]
    rw [← hresult]
    refine ⟨fun ht => ?_, fun ht hleft => ?_⟩
    · have hstripped := c.not_mem_stripped (d := '\r') (by decide) ht
      exact hlaid.not_mem_result (hsource ▸ hstripped)
    · have hstripped := c.isCrLf_stripped (by decide) ht
      refine hlaid.isCrLf_result (hsource ▸ hstripped) ?_
      rw [hsource]
      cases hdetected : Swap.default.detectShape c.stripped with
      | guarded tag => exact hleft tag _ (by rw [hshape, hdetected]) (c.strips_iff.mpr rfl)
      | bareReturn => exact hbare hdetected

set_option maxRecDepth 4000 in
/-- A guard behind an import and a usage tag, in a text with CRLF and in one with LF. -/
theorem default_apply_lineEnds_guard :
    ∃ t t' r r',
      t = "import NavBar from '@/components/NavBar'\r\n<NavBar />\r\n<AdminRoute></AdminRoute>".toList ∧
      t' = "import NavBar from '@/components/NavBar'\n<NavBar />\n<AdminRoute></AdminRoute>".toList ∧
      Swap.default.apply t = .ok r ∧ Swap.default.apply t' = .ok r' ∧
      Text.IsCrLf t ∧ (∀ u, Swap.default.Strips t u → '\n' ∈ u) ∧ '\r' ∉ t' ∧
      Text.IsCrLf r.text ∧ '\r' ∉ r'.text := by
  have h : Swap.default.apply
      "import NavBar from '@/components/NavBar'\r\n<NavBar />\r\n<AdminRoute></AdminRoute>".toList =
    .ok ⟨"import AppShell from \"@/components/AppShell\";\r\n<AdminRoute>\r\n  <AppShell></AppShell></AdminRoute>".toList,
      true, some (.guarded "AdminRoute"), 1, 1⟩ := by
    rw [String.toList_ofList, String.toList_ofList]
    cbv
  have h' : Swap.default.apply
      "import NavBar from '@/components/NavBar'\n<NavBar />\n<AdminRoute></AdminRoute>".toList =
    .ok ⟨"import AppShell from \"@/components/AppShell\";\n<AdminRoute>\n  <AppShell></AppShell></AdminRoute>".toList,
      true, some (.guarded "AdminRoute"), 1, 1⟩ := by
    rw [String.toList_ofList, String.toList_ofList]
    cbv
  have hswapped : Swap.default.swapImport
      "import NavBar from '@/components/NavBar'\r\n<NavBar />\r\n<AdminRoute></AdminRoute>".toList =
    .ok (some ("import AppShell from \"@/components/AppShell\";\r\n<NavBar />\r\n<AdminRoute></AdminRoute>".toList,
      1)) := by
    rw [String.toList_ofList, String.toList_ofList]
    cbv
  have hstripped : Swap.default.removeUsageTags
      "import AppShell from \"@/components/AppShell\";\r\n<NavBar />\r\n<AdminRoute></AdminRoute>".toList =
    .ok ("import AppShell from \"@/components/AppShell\";\r\n<AdminRoute></AdminRoute>".toList,
      1) := by
    rw [String.toList_ofList, String.toList_ofList]
    cbv
  have hleft : ∀ u, Swap.default.Strips
      "import NavBar from '@/components/NavBar'\r\n<NavBar />\r\n<AdminRoute></AdminRoute>".toList
        u → '\n' ∈ u := by
    rintro u ⟨swapped, imports, tags, himports, htags⟩
    rw [hswapped] at himports
    cases himports
    rw [hstripped] at htags
    cases htags
    rw [String.toList_ofList]
    decide
  have hcrlf : Text.IsCrLf
      "import NavBar from '@/components/NavBar'\r\n<NavBar />\r\n<AdminRoute></AdminRoute>".toList := by
    rw [String.toList_ofList]
    decide
  have hlf : '\r' ∉ "import NavBar from '@/components/NavBar'\n<NavBar />\n<AdminRoute></AdminRoute>".toList := by
    rw [String.toList_ofList]
    decide
  exact ⟨_, _, _, _, rfl, rfl, h, h', hcrlf, hleft, hlf,
    (default_apply_lineEnds h).2 hcrlf fun _ u _ hu => hleft u hu,
      (default_apply_lineEnds h').1 hlf⟩

set_option maxRecDepth 4000 in
/-- Inside a guard the line break is LF where the text has none, also if its CRLF went with a usage
tag. -/
theorem default_apply_lineEnds_fails :
    (Text.IsCrLf "import NavBar from '@/components/NavBar'; <AdminRoute></AdminRoute>".toList ∧
        ∃ r, Swap.default.apply
            "import NavBar from '@/components/NavBar'; <AdminRoute></AdminRoute>".toList = .ok r ∧
          ¬r.text.IsCrLf) ∧
      Text.IsCrLf "<NavBar />\r\nimport NavBar from '@/components/NavBar'; <AdminRoute></AdminRoute>".toList ∧
        ∃ r, Swap.default.apply
              "<NavBar />\r\nimport NavBar from '@/components/NavBar'; <AdminRoute></AdminRoute>".toList = .ok r ∧
          ¬r.text.IsCrLf := by
  have hbare : ¬Text.IsCrLf
      "import AppShell from \"@/components/AppShell\"; <AdminRoute>\n  <AppShell></AppShell></AdminRoute>".toList := by
    rw [String.toList_ofList]
    decide
  have hnone : Swap.default.apply
      "import NavBar from '@/components/NavBar'; <AdminRoute></AdminRoute>".toList =
    .ok ⟨"import AppShell from \"@/components/AppShell\"; <AdminRoute>\n  <AppShell></AppShell></AdminRoute>".toList,
      true, some (.guarded "AdminRoute"), 1, 0⟩ := by
    rw [String.toList_ofList, String.toList_ofList]
    cbv
  have hgone : Swap.default.apply
      "<NavBar />\r\nimport NavBar from '@/components/NavBar'; <AdminRoute></AdminRoute>".toList =
    .ok ⟨"import AppShell from \"@/components/AppShell\"; <AdminRoute>\n  <AppShell></AppShell></AdminRoute>".toList,
      true, some (.guarded "AdminRoute"), 1, 1⟩ := by
    rw [String.toList_ofList, String.toList_ofList]
    cbv
  refine ⟨⟨?_, _, hnone, hbare⟩, ?_, _, hgone, hbare⟩
  all_goals
    rw [String.toList_ofList]
    decide

end Swap

end Rewrap
