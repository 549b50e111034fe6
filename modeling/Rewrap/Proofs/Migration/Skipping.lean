import Rewrap.Migration.Basic
import Rewrap.Proofs.Action.Trace
import Rewrap.Proofs.Except
import Rewrap.Proofs.Swap.Agreement

/-! # Skipped files

A migration reads a file twice: to select it, and to make the swap in it. It skips a selected file
only if the second text is not the first one, since a swap changes every selected text that it does
not refuse. -/

namespace Rewrap

/-! ## Readings -/

namespace Action

/-- Every file gives the same each time it is read. -/
def AreStable (rs : List (Path × Except FileError Text)) : Prop :=
  ∀ p x y, (p, x) ∈ rs → (p, y) ∈ rs → x = y

end Action

namespace Migration

variable {m : Migration} {o : Options} {w w' : World}

/-! ## Reading all files -/

theorem readings_readAll (ps : List Path) (w : World) :
    (readAll ps).readings w = ((readAll ps).run w).1 := by
  induction ps generalizing w with
  | nil => rfl
  | cons p ps ih =>
      have hrest := ih (w.reply (.readSource p)).2
      unfold readAll
      rw [Action.readings_bind, Action.readings_bind, Action.run_bind, Action.run_bind,
        Action.run_ask, hrest]
      simp [Action.readings, Action.ask, Action.readingOf, World.reply]

theorem readAll_world (ps : List Path) (w : World) :
    ((readAll ps).run w).2 = { w with sourcesRead := ps.reverse ++ w.sourcesRead } := by
  induction ps generalizing w with
  | nil => rfl
  | cons p ps ih =>
      unfold readAll
      rw [Action.run_bind, Action.run_bind, ih, List.reverse_cons, List.append_assoc]
      rfl

theorem mem_candidates {rs : List (Path × Except FileError Text)} {p : Path} :
    p ∈ (m.discoveryOf rs).candidates ↔
      m.selector.isExcluded p = false ∧ ∃ t, (p, .ok t) ∈ rs ∧
        m.selector.accepts t = true := by
  have hsorted : p ∈ (m.discoveryOf rs).candidates ↔
      p ∈ m.selector.select (rs.filterMap fun r => r.2.toOption.map (r.1, ·)) :=
    (List.mergeSort_perm _ _).mem_iff
  have hread : ∀ q t, (q, t) ∈ rs.filterMap (fun r => r.2.toOption.map (r.1, ·)) ↔
      (q, .ok t) ∈ rs := by
    intro q t
    rw [List.mem_filterMap]
    constructor
    · rintro ⟨⟨q', x⟩, hx, heq⟩
      cases x with
      | error e => cases heq
      | ok t' =>
          cases heq
          exact hx
    · intro h
      exact ⟨_, h, rfl⟩
  rw [hsorted, Selector.select, List.mem_map]
  constructor
  · rintro ⟨⟨q, t⟩, hmem, rfl⟩
    obtain ⟨hmem, haccepted⟩ := List.mem_filter.mp hmem
    obtain ⟨hexcluded, haccepted⟩ := Bool.and_eq_true_iff.mp haccepted
    exact ⟨by simpa using hexcluded, t, (hread q t).mp hmem, haccepted⟩
  · rintro ⟨hexcluded, t, hmem, haccepted⟩
    exact ⟨(p, t), List.mem_filter.mpr ⟨(hread p t).mpr hmem, by simp [hexcluded, haccepted]⟩,
      rfl⟩

/-- A discovery goes by what it reads. -/
theorem discover_spec {d : Discovery} (h : m.discover.run.run w = (.ok d, w')) :
    ∃ rs, d = m.discoveryOf rs ∧ ∀ x ∈ rs, x ∈ m.discover.run.readings w := by
  unfold discover at h ⊢
  obtain ⟨files, w₁, hfiles, h⟩ := Attempt.bind_eq_ok h
  rw [Attempt.run_bind, Attempt.run_always] at h
  cases h
  refine ⟨_, rfl, fun x hx => ?_⟩
  rw [Attempt.readings_bind hfiles, Attempt.readings_bind (Attempt.run_always _ _),
    Attempt.readings_always, readings_readAll]
  exact List.mem_append_right _ (List.mem_append_left _ hx)

/-! ## Migrating what was read -/

theorem concluded_ne_skipped (journal : Option Journal) (r : Except FileFailure (Option Journal)) :
    (concluded journal r).1 ≠ .skipped := by
  cases r <;> simp [concluded]

/-- A file is skipped only if it gives a text that the swap leaves as it is. -/
theorem migrateFile_skipped {journal : Option Journal} {p : Path}
    (h : ((m.migrateFile o journal p).run w).1.1 = .skipped) :
    ∃ t r, (p, .ok t) ∈ (m.migrateFile o journal p).readings w ∧ m.swap.apply t = .ok r ∧
      r.changed = false := by
  have hread : (p, w.source p) ∈ (m.migrateFile o journal p).readings w := by
    unfold migrateFile
    rw [Action.readings_bind]
    exact List.mem_append_left _ List.mem_cons_self
  unfold migrateFile at h
  rw [Action.run_bind, Action.run_ask] at h
  simp only [World.reply] at h
  cases hsource : w.source p with
  | error e => simp [hsource] at h
  | ok before =>
      rw [hsource] at h hread
      cases happly : m.swap.apply before with
      | error f => simp [happly] at h
      | ok r =>
          refine ⟨before, r, hread, happly, ?_⟩
          by_contra hchanged
          have hchanged : r.changed = true := by simpa using hchanged
          simp only [happly, hchanged, Bool.not_true, Bool.false_eq_true, if_false,
            Action.run_bind] at h
          split at h
          · rw [Action.run_bind] at h
            exact concluded_ne_skipped _ _ h
          · cases h

theorem migrateAll_ne_skipped {ps : List Path} {progress : Progress}
    (hps : ∀ p ∈ ps, ∀ t, (p, .ok t) ∈ (m.migrateAll o progress ps).readings w →
      ∀ r, m.swap.apply t = .ok r → r.changed = true)
    (hresults : ∀ x ∈ progress.results, x.2 ≠ .skipped) :
    ∀ x ∈ ((m.migrateAll o progress ps).run w).1.results, x.2 ≠ .skipped := by
  induction ps generalizing progress w with
  | nil => exact hresults
  | cons p ps ih =>
      unfold migrateAll at hps ⊢
      simp only [Action.readings_bind, List.mem_append] at hps
      rw [Action.run_bind]
      refine ih (fun q hq t ht => hps q (List.mem_cons_of_mem _ hq) t (.inr ht)) fun x hx => ?_
      rcases List.mem_append.mp hx with hx | hx
      · exact hresults x hx
      · obtain rfl := List.mem_singleton.mp hx
        intro hskipped
        obtain ⟨t, r, hread, happly, hchanged⟩ := migrateFile_skipped hskipped
        have := hps p List.mem_cons_self t (.inl hread) r happly
        simp [hchanged] at this

/-- A migration whose swap changes every selected text that it does not refuse skips no file, if
every file gives the same each time it is read. -/
theorem run_ne_skipped {journal : Option Journal}
    (hm : ∀ t, m.selector.accepts t = true → ∀ r, m.swap.apply t = .ok r → r.changed = true)
    {result : Report × Option Journal} (h : (m.run o journal).run.run w = (.ok result, w'))
    (hstable : Action.AreStable ((m.run o journal).run.readings w)) :
    ∀ x ∈ result.1.results, x.2 ≠ .skipped := by
  unfold run at h hstable
  obtain ⟨d, w₁, hdiscover, h⟩ := Attempt.bind_eq_ok h
  rw [Attempt.readings_bind hdiscover, Attempt.readings_bind (Attempt.run_always _ _),
    Attempt.readings_always] at hstable
  rw [Attempt.run_bind, Attempt.run_always] at h
  cases h
  obtain ⟨rs, rfl, hrs⟩ := discover_spec hdiscover
  refine migrateAll_ne_skipped (fun p hp t ht => ?_) fun x hx => ?_
  · obtain ⟨t', hread, haccepts⟩ := (mem_candidates.mp hp).2
    have heq := hstable p _ _ (List.mem_append_left _ (hrs _ hread))
      (List.mem_append_right _ (List.mem_append_left _ ht))
    cases heq
    exact hm t haccepts
  · obtain ⟨e, -, rfl⟩ := List.mem_map.mp hx
    simp

/-! ## The default swap -/

theorem ofSpec_eq_ok {cwd root : Path} {s : Spec} {extra : List String}
    (h : ofSpec cwd s root extra = .ok m) :
    m.swap.spec = s ∧ ∃ exclusions, m.selector = .ofSpec s exclusions := by
  obtain ⟨exclusions, -, h⟩ := Except.bind_eq_ok.mp h
  obtain ⟨swap, hswap, h⟩ := Except.bind_eq_ok.mp h
  cases h
  have hswap := Except.mapError_eq_ok.mp hswap
  unfold Spec.check at hswap
  split at hswap
  · cases hswap
    exact ⟨rfl, exclusions, rfl⟩
  · cases hswap

/-- A text is either not selected and left as it is, or selected and refused, or selected and
changed. So a migration to the application shell in which every file gives the same each time it is
read skips none. -/
theorem default_selector_agrees :
    (∀ exclusions t,
      (Swap.default.Leaves (.ofSpec {} exclusions) t ∨
        Swap.default.Refuses (.ofSpec {} exclusions) t ∨
        Swap.default.Changes (.ofSpec {} exclusions) t) ∧
      ¬(Swap.default.Leaves (.ofSpec {} exclusions) t ∧
        Swap.default.Refuses (.ofSpec {} exclusions) t) ∧
      ¬(Swap.default.Leaves (.ofSpec {} exclusions) t ∧
        Swap.default.Changes (.ofSpec {} exclusions) t) ∧
      ¬(Swap.default.Refuses (.ofSpec {} exclusions) t ∧
        Swap.default.Changes (.ofSpec {} exclusions) t)) ∧
    ∀ cwd root extra m, ofSpec cwd {} root extra = .ok m → ∀ o journal w result w',
      (m.run o journal).run.run w = (.ok result, w') →
      Action.AreStable ((m.run o journal).run.readings w) →
      ∀ x ∈ result.1.results, x.2 ≠ .skipped := by
  refine ⟨fun exclusions t => ⟨Swap.default_leaves_or_refuses_or_changes exclusions t,
    Swap.not_two_of_leaves_refuses_changes _ t⟩, ?_⟩
  intro cwd root extra m hm o journal w result w' hrun hstable
  obtain ⟨hspec, exclusions, hselector⟩ := ofSpec_eq_ok hm
  have hswap : m.swap = Swap.default := by
    obtain ⟨root, ⟨spec, hfaultless⟩, selector⟩ := m
    cases hspec
    rfl
  refine run_ne_skipped (fun t haccepts r happly => ?_) hrun hstable
  rw [hselector] at haccepts
  rw [hswap] at happly
  rcases Swap.default_leaves_or_refuses_or_changes exclusions t with ⟨hno, -⟩ |
    ⟨-, fault, herror⟩ | hchanges
  · simp [hno] at haccepts
  · simp [herror] at happly
  · obtain ⟨-, r', hr', hchanged, -⟩ := hchanges
    rw [hr'] at happly
    cases happly
    exact hchanged

/-! ## A page and a dry run -/

theorem run_dry_of_single {w₁ : World} {p : Path} {before : Text} {r : Swapped}
    (hdiscover : m.discover.run.run w = (.ok ⟨[p], []⟩, w₁))
    (hsource : w₁.source p = .ok before) (happly : m.swap.apply before = .ok r)
    (hchanged : r.changed = true) :
    (∃ w', (m.run ⟨false, .quiet⟩ none).run.run w =
      (.ok (⟨true, 1, [(m.relative p, .migrated)], {}, none⟩, none), w')) ∧
    (m.run ⟨false, .quiet⟩ none).run.readings w =
      m.discover.run.readings w ++ [(p, .ok before)] := by
  have hfile : (m.migrateFile ⟨false, .quiet⟩ none p).readings w₁ = [(p, .ok before)] ∧
      ∃ w', (m.migrateFile ⟨false, .quiet⟩ none p).run w₁ =
        ((.migrated, {}, none), w') := by
    unfold migrateFile
    rw [Action.readings_bind, Action.run_bind, Action.run_ask]
    simp only [World.reply, hsource, happly, hchanged, Bool.not_true, Bool.false_eq_true, if_false]
    exact ⟨by rw [← hsource]; rfl, _, rfl⟩
  obtain ⟨hreadings, w', hrun⟩ := hfile
  unfold run
  rw [Attempt.bind_of_ok hdiscover, Attempt.readings_bind hdiscover, Attempt.run_bind,
    Attempt.readings_bind (Attempt.run_always _ _), Attempt.run_always, Attempt.readings_always]
  simp only [migrateAll, List.map_nil, Action.run_bind, Action.readings_bind, hrun, hreadings]
  exact ⟨⟨w', rfl⟩, rfl⟩

/-- A page with a guard and the navigation bar. -/
def barPage : World :=
  { tree := ⟨[], [(["src"], .folder), (["src", "a.ts"], .file (Text.toBytes
      "import NavBar from '@/components/NavBar'\n<AdminRoute></AdminRoute>".toList))]⟩ }

/-- The migration of that page to the application shell. -/
def toShell : Migration := ⟨⟨"/src"⟩, Swap.default, .ofSpec {} ⟨⟨"/"⟩, [], []⟩⟩

theorem toShell_apply : ∃ r, toShell.swap.apply
    "import NavBar from '@/components/NavBar'\n<AdminRoute></AdminRoute>".toList = .ok r ∧
      r.changed = true :=
  ⟨⟨"import AppShell from \"@/components/AppShell\";\n<AdminRoute>\n  <AppShell></AppShell></AdminRoute>".toList,
    true, some (.guarded "AdminRoute"), 1, 0⟩, by cbv, rfl⟩

/-- A dry run over the page reads it twice, the same each time, and reports it as one to migrate. -/
theorem default_selector_agrees_barPage :
    ofSpec ⟨"/"⟩ {} ⟨"/src"⟩ [] = .ok toShell ∧
      ∃ result w', (toShell.run ⟨false, .quiet⟩ none).run.run barPage = (.ok result, w') ∧
        result.1.results = [(toShell.relative ⟨"/src/a.ts"⟩, .migrated)] ∧
        Action.AreStable ((toShell.run ⟨false, .quiet⟩ none).run.readings barPage) ∧
        ∀ x ∈ result.1.results, x.2 ≠ .skipped := by
  have hspec : ofSpec ⟨"/"⟩ {} ⟨"/src"⟩ [] = .ok toShell := rfl
  have hdiscover : toShell.discover.run.run barPage =
      (.ok ⟨[⟨"/src/a.ts"⟩], []⟩, (toShell.discover.run.run barPage).2) :=
    Except.pair_of_fst (by decide +kernel)
  have hsource : (toShell.discover.run.run barPage).2.source ⟨"/src/a.ts"⟩ =
      .ok "import NavBar from '@/components/NavBar'\n<AdminRoute></AdminRoute>".toList := by
    decide +kernel
  have hread : toShell.discover.run.readings barPage = [(⟨"/src/a.ts"⟩,
      .ok "import NavBar from '@/components/NavBar'\n<AdminRoute></AdminRoute>".toList)] := by
    decide +kernel
  obtain ⟨r, happly, hchanged⟩ := toShell_apply
  obtain ⟨⟨w', hrun⟩, hreadings⟩ := run_dry_of_single hdiscover hsource happly hchanged
  have hstable : Action.AreStable
      ((toShell.run ⟨false, .quiet⟩ none).run.readings barPage) := by
    rw [hreadings, hread]
    intro p x y hx hy
    simp only [List.cons_append, List.nil_append, List.mem_cons, Prod.mk.injEq, List.not_mem_nil,
      or_false, or_self] at hx hy
    exact hx.2.trans hy.2.symm
  exact ⟨hspec, _, w', hrun, rfl, hstable,
    default_selector_agrees.2 _ _ _ _ hspec _ _ _ _ _ hrun hstable⟩

end Migration

end Rewrap
