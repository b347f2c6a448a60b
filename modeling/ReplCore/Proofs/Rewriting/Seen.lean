import ReplCore.Proofs.Rewriting.History
import ReplCore.Proofs.Rewriting.Outcomes

/-!
# Modules that were seen in the globals

A redirected module is read from the globals if it was shown to be there: it was marked, or a
namespace with its URL was confirmed after the redirect, or some statement that loads the module was
rewritten with such a namespace. A submission reads it from the globals in just these cases.

* `wasFetched_foldl_loaded`: what loading several specifiers notes.
* `wasFetched_apply`, `wasFetched_after`: what one event and a run of events note.
* `reads_iff_seen`: when a module is read from the globals, and the flags after a confirmation.
-/

namespace ReplCore

open Resolver

variable {r : Resolver} {base x : Text} {k : RewriteContext}

namespace Resolver

variable {lookup : LocalLookup} {s : Text}

theorem isRemote_note (r : Resolver) (s x : Text) :
    ({ r with cache := r.cache.note s } : Resolver).isRemote x = true ↔ r.isRemote x = true := by
  rw [Resolver.isRemote_iff, Resolver.isRemote_iff, ModuleCache.specifiers_note]

theorem isRemote_confirm (hnodup : (r.cache.modules.map CachedModule.specifier).Nodup)
    (keys : List Text) :
    ({ r with cache := r.cache.confirm keys } : Resolver).isRemote s = true ↔
      r.isRemote s = true := by
  rw [Resolver.isRemote_iff, Resolver.isRemote_iff, ModuleCache.modules_confirm hnodup,
    List.map_map]
  rfl

end Resolver

namespace Rewriting

open Expression

/-! ## Loading specifiers -/

/-- A specifier that stays where it was loaded from is not redirected later on either. -/
theorem isRemote_of_foldl_loaded (xs : List Text)
    (h : (xs.foldl (loaded k base) (loaded k base r x)).isRemote x = true) :
    (loaded k base r x).isRemote x = true := by
  rcases (redirects_foldl_loaded k base xs _).isRemote_iff.mp h with h | hdue
  · exact h
  · have hsame := (redirects_loaded k base r x).isDue_eq k.lookup x
    rw [List.mem_eraseDups, List.mem_filter, hsame] at hdue
    simp [List.mem_filter] at hdue

/-- Loading several specifiers notes the modules of those that are redirected to a URL that the
namespace has. -/
theorem wasFetched_foldl_loaded (xs : List Text) : ∀ {r : Resolver}, Settled base r →
    ((xs.foldl (loaded k base) r).cache.wasFetched x = true ↔ r.cache.wasFetched x = true ∨
      x ∈ xs ∧ (xs.foldl (loaded k base) r).isRemote x = true ∧
        hasUrl k.namespaceKeys base x = true) := by
  induction xs with
  | nil => simp
  | cons y xs ih =>
    intro r h
    have hkept : (loaded k base r y).isRemote x = true →
        (xs.foldl (loaded k base) (loaded k base r y)).isRemote x = true := fun hremote =>
      (redirects_foldl_loaded k base xs _).isRemote_iff.mpr (.inl hremote)
    rw [List.foldl_cons, ih (settled_loaded h k y), wasFetched_loaded h, List.mem_cons, or_assoc,
      or_and_right]
    refine or_congr_right (or_congr_left ⟨?_, ?_⟩)
    · rintro ⟨hx, hremote, hurl⟩
      exact ⟨hx, hkept hremote, hurl⟩
    · rintro ⟨rfl, hremote, hurl⟩
      exact ⟨rfl, isRemote_of_foldl_loaded xs hremote, hurl⟩

/-! ## Where modules come from -/

/-- Whether a statement in place of another gets its module from where it is: from the globals if it
was fetched, and else from its URL. -/
def Gets (o : RewriteOptions) (base : Text) (isRemote fetched : Text → Bool) (st : Statement)
    (p : PrintableStatement) : Prop :=
  ∀ plan, loadPlan? o st = some plan → isRemote plan.specifier = true →
    p = .generated (plan.build (redirected (Specifier.cdnUrl base plan.specifier)
      plan.importOptions (fetched plan.specifier)))

/-- Rewriting several statements loads their specifiers, and the redirected ones come from the
globals if they were fetched before or the namespace has them. -/
theorem exists_each_gets (k : RewriteContext) (statements : List Statement) {r : Resolver}
    (h : Settled base r) :
    ∃ ps r', r' = (statements.filterMap (loadedSpecifier? k.options)).foldl (loaded k base) r ∧
      (statement k).each statements r = (.result ps, r') ∧
      List.Forall₂ (Gets k.options base r'.isRemote
        fun y => r.cache.wasFetched y || hasUrl k.namespaceKeys base y) statements ps := by
  refine ⟨_, _, rfl, each_eq_outcomes k statements h, ?_⟩
  rw [List.forall₂_map_right_iff, List.forall₂_same]
  intro st _ plan hplan hremote
  have hredirects : r.redirects k.lookup plan.specifier = true := by
    rw [← (redirects_foldl_loaded k base _ r).redirects_eq fun y hy => ?_, Resolver.redirects,
      hremote, Bool.true_or]
    exact (List.mem_filter.mp (List.mem_eraseDups.mp hy)).2
  simp only [outcome, hplan]
  rw [sourceOf, if_pos hredirects, isStored]

end Rewriting

namespace Transpiler

open Rewriting Expression Script

variable {t : Transpiler}

/-! ## What a submission notes -/

/-- The submission that is read from a source, if the text without types is read and can be. -/
def submission? (t : Transpiler) (source label : Text) : Option Submission :=
  let text := (t.stripTypes source label).1
  if !t.options.rewritesAnything || t.options.shouldSkip text then none
  else (Submission.read text).toOption

/-- The specifiers that the statements of a source load, in order. -/
def loads (t : Transpiler) (source label : Text) : List Text :=
  ((t.submission? source label).map fun s =>
    s.statements.filterMap (loadedSpecifier? t.options)).getD []

theorem transpile_of_submission?_eq_none {source label : Text}
    (h : t.submission? source label = none) (lookup : LocalLookup) (keys : Option (List Text)) :
    t.transpile lookup source keys label =
      (.ok (t.stripTypes source label).1, (t.stripTypes source label).2) := by
  refine transpile_of_unread lookup keys ?_
  simp only [submission?] at h
  split at h
  · next hskip =>
    rw [Bool.or_eq_true, Bool.not_eq_true'] at hskip
    exact hskip.imp_right .inl
  · cases hread : Submission.read (t.stripTypes source label).1 with
    | error e => exact .inr (.inr ⟨e, rfl⟩)
    | ok s =>
      rw [hread] at h
      cases h

theorem transpile_of_submission? {source label : Text} {s : Submission}
    (h : t.submission? source label = some s) (lookup : LocalLookup) (keys : Option (List Text)) :
    t.transpile lookup source keys label =
      (t.stripTypes source label).2.rewriteSubmission lookup keys s := by
  simp only [submission?] at h
  split at h
  · cases h
  · next hread =>
    simp only [transpile, transpileStripped, options_stripTypes, if_neg hread,
      eq_ok_of_toOption h]

/-- A submission is rewritten and printed; its redirected modules come from the globals if they were
fetched before or the namespace has them. -/
theorem exists_transpile_gets {source label : Text} {s : Submission}
    (hsettled : Settled base t.resolver) (h : t.submission? source label = some s)
    (lookup : LocalLookup) (keys : Option (List Text)) :
    ∃ ps text t', t.transpile lookup source keys label = (.ok text, t') ∧ s.print ps = .ok text ∧
      t'.resolver = (t.loads source label).foldl (loaded ⟨t.options, lookup, keys⟩ base) t.resolver ∧
      Rewriting.submission ⟨t.options, lookup, keys⟩ s t.resolver = (.result ps, t'.resolver) ∧
      List.Forall₂ (Gets t.options base t'.resolver.isRemote
        fun y => t.resolver.cache.wasFetched y || hasUrl keys base y) s.statements ps := by
  obtain ⟨ps, r', hr', heach, hgets⟩ :=
    exists_each_gets ⟨t.options, lookup, keys⟩ s.statements hsettled
  have hprint := Submission.print_eq hgets.length_eq.symm
  have hsubmission : Rewriting.submission ⟨t.options, lookup, keys⟩ s t.resolver =
      (.result ps, r') := heach
  refine ⟨ps, _, { (t.stripTypes source label).2 with resolver := r' }, ?_, hprint, ?_, heach, hgets⟩
  · rw [transpile_of_submission? h]
    simp only [rewriteSubmission, options_stripTypes, resolver_stripTypes, hsubmission, hprint]
  · rw [loads, h, Option.map_some, Option.getD_some, hr']

/-! ## What events note -/

/-- Whether an event shows that the module of a specifier, which is redirected then, is in the
globals: the module is marked, or its URL is in a namespace that is confirmed or that a statement
which loads the specifier is rewritten with. -/
def Event.Shows (base : Text) (t : Transpiler) (x : Text) (event : Event) : Prop :=
  (event.apply t).resolver.isRemote x = true ∧
    match event with
    | transpile _ source keys label => x ∈ t.loads source label ∧ hasUrl keys base x = true
    | rewrite _ keys st => loadedSpecifier? t.options st = some x ∧ hasUrl keys base x = true
    | confirm keys => hasUrl (some keys) base x = true
    | markFetched s => x = s
    | resolve .. | isRemote _ => False

/-- Whether some event of a run shows that the module of a specifier is in the globals. -/
def Seen (base : Text) (t : Transpiler) (events : List Event) (x : Text) : Prop :=
  ∃ earlier event later, events = earlier ++ event :: later ∧ event.Shows base (t.after earlier) x

theorem seen_cons {event : Event} {events : List Event} :
    Seen base t (event :: events) x ↔
      event.Shows base t x ∨ Seen base (event.apply t) events x := by
  constructor
  · rintro ⟨earlier, event', later, hevents, hshows⟩
    cases earlier with
    | nil =>
      cases hevents
      exact .inl hshows
    | cons first earlier =>
      cases hevents
      exact .inr ⟨earlier, event', later, rfl, hshows⟩
  · rintro (hshows | ⟨earlier, event', later, rfl, hshows⟩)
    · exact ⟨[], event, events, rfl, hshows⟩
    · exact ⟨event :: earlier, event', later, rfl, hshows⟩

/-- An event notes just the modules that it shows to be in the globals. -/
theorem wasFetched_apply (h : Settled base t.resolver) (event : Event) :
    (event.apply t).resolver.cache.wasFetched x = true ↔
      t.resolver.cache.wasFetched x = true ∨ event.Shows base t x := by
  cases event with
  | transpile lookup source keys label =>
    cases hread : t.submission? source label with
    | none =>
      have htranspile := transpile_of_submission?_eq_none hread lookup keys
      simp [Event.Shows, Event.apply, serve, htranspile, resolver_stripTypes, loads, hread]
    | some s =>
      obtain ⟨ps, text, t', htranspile, -, hresolver, -⟩ := exists_transpile_gets h hread lookup keys
      have hnoted := wasFetched_foldl_loaded (k := ⟨t.options, lookup, keys⟩) (x := x)
        (t.loads source label) h
      rw [← hresolver] at hnoted
      simp only [Event.Shows, Event.apply, serve, htranspile]
      rw [hnoted, and_left_comm]
  | rewrite lookup keys st =>
    simp only [Event.Shows, Event.apply]
    rw [← map_specifier_loadPlan?]
    cases hplan : loadPlan? t.options st with
    | none => simp [statement_of_loadPlan?_eq_none (k := ⟨t.options, lookup, keys⟩) hplan]
    | some plan =>
      obtain ⟨source, -, hstatement⟩ :=
        statement_eq_loaded (k := ⟨t.options, lookup, keys⟩) h.cdnBase_eq hplan
      simp only [hstatement, Option.map_some, Option.some.injEq]
      rw [wasFetched_loaded h, and_left_comm, eq_comm (b := x)]
  | confirm keys =>
    simp only [Event.Shows, Event.apply, serve, Transpiler.confirm]
    rw [ModuleCache.wasFetched_confirm h.nodup, isRemote_confirm h.nodup, isRemote_eq_true_iff]
    refine or_congr_right ⟨?_, ?_⟩
    · rintro ⟨m, hentry, hkey⟩
      rw [h.target_of_get? hentry] at hkey
      exact ⟨⟨m, hentry⟩, by simpa [hasUrl] using hkey⟩
    · rintro ⟨⟨m, hentry⟩, hkey⟩
      rw [hasUrl_eq, Option.any_some, decide_eq_true_iff, ← h.target_of_get? hentry] at hkey
      exact ⟨m, hentry, hkey⟩
  | resolve lookup s enabled =>
    have hsame : ((Event.resolve lookup s enabled).apply t).resolver.cache.wasFetched x =
        t.resolver.cache.wasFetched x := by
      cases enabled with
      | false => simp [Event.apply, serve, Resolver.resolve_def]
      | true =>
        obtain ⟨target, hresolve⟩ := resolve_eq h.cdnBase_eq lookup s
        simp only [Event.apply, serve, hresolve]
        exact wasFetched_resolved t.resolver lookup base s x
    simp [hsame, Event.Shows]
  | isRemote s => simp [Event.Shows, Event.apply, serve]
  | markFetched s =>
    cases hcontains : t.resolver.cache.contains s with
    | false =>
      have hne : ¬ (t.resolver.isRemote x = true ∧ x = s) := by
        rintro ⟨hremote, rfl⟩
        simp [isRemote, hcontains] at hremote
      simp [Event.Shows, Event.apply, serve, ModuleCache.markFetched, hcontains, hne]
    | true =>
      simp only [Event.Shows, Event.apply, serve, ModuleCache.markFetched, hcontains, if_true,
        withCache]
      rw [ModuleCache.wasFetched_note, and_iff_left hcontains, isRemote_note]
      refine or_congr_right (iff_and_self.mpr ?_)
      rintro rfl
      exact hcontains

/-- A run of events notes just the modules that some event shows to be in the globals. -/
theorem wasFetched_after (events : List Event) : ∀ {t : Transpiler}, Settled base t.resolver →
    ((t.after events).resolver.cache.wasFetched x = true ↔
      t.resolver.cache.wasFetched x = true ∨ Seen base t events x) := by
  induction events with
  | nil => simp [after, Seen]
  | cons event events ih =>
    intro t h
    have hsettled := h.of_steps (event.steps_apply h.cdnBase_eq)
    rw [seen_cons, ← or_assoc, ← wasFetched_apply h event]
    exact ih hsettled

/-! ## A run from no redirects -/

theorem options_apply (t : Transpiler) (event : Event) : (event.apply t).options = t.options := by
  cases event with
  | transpile lookup source keys label =>
    cases hread : t.submission? source label with
    | none =>
      simp only [Event.apply, serve, transpile_of_submission?_eq_none hread, options_stripTypes]
    | some s =>
      simp only [Event.apply, serve, transpile_of_submission? hread, rewriteSubmission]
      split
      · split <;> exact options_stripTypes t source label
      · exact options_stripTypes t source label
      · exact options_stripTypes t source label
  | rewrite lookup keys st => rfl
  | confirm keys => rfl
  | resolve lookup s enabled =>
    simp only [Event.apply, serve]
    split <;> rfl
  | isRemote s => rfl
  | markFetched s =>
    simp only [Event.apply, serve]
    split <;> rfl

theorem options_after (t : Transpiler) (events : List Event) :
    (t.after events).options = t.options := by
  induction events generalizing t with
  | nil => rfl
  | cons event events ih => exact (ih _).trans (options_apply t event)

/-- After any run from no redirects, what is transpiled reads a redirected module from the globals if
some event showed that it is there or the namespace at hand has its URL, and imports it from its URL
otherwise; a text that is not read or cannot be is left alone. An entry is marked as fetched if some
event showed that, and a confirmation adds just the entries whose URL is a key. Code that imports a
module stores it under the key from which code that reads it takes it, and that is the URL of the
entry. -/
theorem reads_iff_seen (options : RewriteOptions) (base : Text) (stripper : Option TypeStripper)
    (events : List Event) :
    let t₀ := fresh options (some base) stripper
    let t := t₀.after events
    (∀ lookup source keys label s, t.submission? source label = some s →
      ∃ ps text t', ∃ fetched : Text → Bool,
        (∀ x, fetched x = true ↔ Seen base t₀ events x ∨ hasUrl keys base x = true) ∧
        t.transpile lookup source keys label = (.ok text, t') ∧ s.print ps = .ok text ∧
        Rewriting.submission ⟨options, lookup, keys⟩ s t.resolver = (.result ps, t'.resolver) ∧
        List.Forall₂ (Gets options base t'.resolver.isRemote fetched) s.statements ps) ∧
    (∀ lookup source keys label, t.submission? source label = none →
      t.transpile lookup source keys label =
        (.ok (t.stripTypes source label).1, (t.stripTypes source label).2)) ∧
    (∀ m ∈ t.resolver.cache.modules, m.target = Specifier.cdnUrl base m.specifier ∧
      (m.fetched = true ↔ Seen base t₀ events m.specifier)) ∧
    (∀ keys, (t.confirm keys).resolver.cache.modules = t.resolver.cache.modules.map fun m =>
      { m with fetched := m.fetched || keys.contains m.target }) ∧
    ∀ (h : Host) (m : Val) (x importOptions : Text) (g : Globals),
      let url := Specifier.cdnUrl base x
      h.module url importOptions = m → h.settled m = m →
        (redirected url importOptions false).Provides h m g (g.store url m) ∧
        (g url = some m → (redirected url importOptions true).Provides h m g g) := by
  intro t₀ t
  have hfresh : Settled base t₀.resolver := Settled.fresh base
  have hsettled : Settled base t.resolver := settled_after options base stripper events
  have hoptions : t.options = options := options_after t₀ events
  have hseen : ∀ x, t.resolver.cache.wasFetched x = true ↔ Seen base t₀ events x := by
    intro x
    have hnone : t₀.resolver.cache.wasFetched x = false := rfl
    rw [wasFetched_after events hfresh, hnone]
    simp
  refine ⟨fun lookup source keys label s hread => ?_, fun lookup source keys label hread => ?_,
    fun m hm => ⟨hsettled.target_eq m hm, ?_⟩, fun keys => ?_, ?_⟩
  · obtain ⟨ps, text, t', htranspile, hprint, -, hsubmission, hgets⟩ :=
      exists_transpile_gets hsettled hread lookup keys
    rw [hoptions] at hsubmission hgets
    refine ⟨ps, text, t', _, fun x => ?_, htranspile, hprint, hsubmission, hgets⟩
    rw [Bool.or_eq_true, hseen]
  · exact transpile_of_submission?_eq_none hread lookup keys
  · rw [← hseen, ModuleCache.wasFetched, hsettled.get?_eq hm, Option.any_some]
  · exact ModuleCache.modules_confirm hsettled.nodup keys
  · intro h m x importOptions g url hmodule hpromise
    exact ⟨provides_imported hmodule hpromise, provides_stored⟩

/-- A package that is redirected, confirmed, and then read from the globals. -/
theorem reads_iff_seen_confirmed :
    let url := "https://cdn/x/+esm".toList
    let t := (fresh .default (some "https://cdn".toList) none).after
      [.resolve findsNothing "x".toList true, .confirm [url]]
    ∃ s text t', t.submission? "import 'x'".toList [] = some s ∧
      t.transpile findsNothing "import 'x'".toList none [] = (.ok text, t') ∧
      s.print [.generated (.expression (globalLookup url))] = .ok text := by
  intro url t
  have hurl : Specifier.cdnUrl "https://cdn".toList "x".toList = url := by decide +kernel
  let s : Submission := ⟨"import 'x'".toList,
    [⟨⟨0, 10⟩, "import 'x'".toList, .importing "x".toList .nothing⟩]⟩
  have hread : t.submission? "import 'x'".toList [] = some s := by decide +kernel
  have hredirected : (Rewriting.submission ⟨.default, findsNothing, none⟩ s t.resolver).2.isRemote
      "x".toList = true := by
    decide +kernel
  obtain ⟨hgets, -⟩ := reads_iff_seen .default "https://cdn".toList none
    [.resolve findsNothing "x".toList true, .confirm [url]]
  obtain ⟨ps, text, t', fetched, hfetched, htranspile, hprint, hsubmission, hps⟩ :=
    hgets findsNothing "import 'x'".toList none [] s hread
  have hshows : (Event.confirm [url]).Shows "https://cdn".toList
      ((fresh .default (some "https://cdn".toList) none).after
        [.resolve findsNothing "x".toList true]) "x".toList := by
    refine ⟨?_, ?_⟩
    · decide +kernel
    · decide +kernel
  have hseen : fetched "x".toList = true :=
    (hfetched _).mpr (.inl ⟨[_], _, [], rfl, hshows⟩)
  rw [hsubmission] at hredirected
  refine ⟨s, text, t', hread, htranspile, ?_⟩
  obtain ⟨p, ps', hp, hnil, rfl⟩ := List.forall₂_cons_left_iff.mp hps
  obtain rfl := List.forall₂_nil_left_iff.mp hnil
  have hgot := hp ⟨"x".toList, none, [], importing .nothing⟩ rfl hredirected
  rw [hseen, hurl] at hgot
  rw [hgot] at hprint
  exact hprint

end Transpiler

end ReplCore
