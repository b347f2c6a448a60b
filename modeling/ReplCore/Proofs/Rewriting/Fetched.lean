import ReplCore.Proofs.Generated.Meaning
import ReplCore.Proofs.Modules.Redirects
import ReplCore.Proofs.Rewriting.Loading

/-!
# Reading a fetched module

A redirected module is imported from its URL until it was fetched, and is read from the globals from
then on. Both ways to load it lead to one outcome, which is stated here without generated code: what
the statement binds when its module is a given value. They differ in one case. Where the default
export is bound by itself, it is bound as it is once the module was fetched, but before that a
default export that is a thenable was awaited.

* `redirectsTo_again`: a namespace with the URL among its keys makes the module a fetched one.
* `run_eq_run_fetched_iff`: what a statement does before and after its module was fetched, and when
  that is the same.
-/

namespace ReplCore

open Script

namespace ModuleCache

variable {c : ModuleCache} {s : Text} {keys : Option (List Text)}

/-- A module that was not fetched is not noted. -/
theorem snd_isFetched_of_not (h : (c.isFetched s keys).1 = false) : (c.isFetched s keys).2 = c := by
  unfold isFetched at h ⊢
  split
  · rfl
  · next m hentry =>
    simp only [hentry] at h
    split
    · rfl
    · next hseen =>
      split
      · next hkeys => simp [hseen, hkeys] at h
      · rfl

theorem fst_isFetched_of_mem {m : CachedModule} {keys : List Text} (hentry : c.get? s = some m)
    (htarget : m.target ∈ keys) : (c.isFetched s (some keys)).1 = true := by
  unfold isFetched
  simp only [hentry, Option.any_some, htarget, decide_true, if_true]
  split <;> rfl

end ModuleCache

namespace Rewriting

open Expression

/-! ## Redirects -/

/-- Loading the specifier is redirected to the URL of a module that was fetched or not, and leads
from one resolver to the next. -/
def RedirectsTo (k : RewriteContext) (r r' : Resolver) (specifier url : Text) (fetched : Bool) :
    Prop :=
  ∃ r₁, r.resolve k.lookup specifier true = .ok (url, r₁) ∧ r₁.isRemote specifier = true ∧
    (r₁.cache.isFetched specifier k.namespaceKeys).1 = fetched ∧
    r' = { r₁ with cache := (r₁.cache.isFetched specifier k.namespaceKeys).2 }

/-- Where a redirected module comes from. -/
def redirected (url importOptions : Text) (fetched : Bool) : Source :=
  if fetched then .loaded (globalLookup url)
  else .promise (andThen (.importCall (.string url) importOptions) (storeCallback url))

variable {k k' : RewriteContext} {r r' r₁ r₁' : Resolver} {specifier url : Text} {fetched : Bool}

theorem load_of_redirectsTo (h : RedirectsTo k r r' specifier url fetched) (literal : Option Text)
    (importOptions : Text) :
    load k r specifier literal importOptions = .ok (redirected url importOptions fetched, r') := by
  obtain ⟨r₁, hresolve, hremote, rfl, rfl⟩ := h
  rw [load, hresolve, Except.map]
  simp only [hremote, Bool.not_true, Bool.false_eq_true, if_false, redirected]
  split <;> rfl

theorem loading_of_redirectsTo (h : RedirectsTo k r r' specifier url fetched)
    (literal : Option Text) (importOptions : Text) (build : Source → GeneratedStatement)
    (st : Statement) :
    loading k specifier literal importOptions build st r =
      (.result (.generated (build (redirected url importOptions fetched))), r') := by
  rw [loading, load_of_redirectsTo h]

/-- A redirected specifier has an entry with its target. -/
theorem get?_of_resolve {lookup : LocalLookup} (hfree : Resolver.isFixed specifier = false)
    (hresolve : r.resolve lookup specifier true = .ok (url, r'))
    (hremote : r'.isRemote specifier = true) :
    ∃ m, r'.cache.get? specifier = some m ∧ m.target = url := by
  rw [Resolver.resolve_def, if_neg (by simp [hfree])] at hresolve
  split at hresolve
  · next m hentry =>
    cases hresolve
    exact ⟨m, hentry, rfl⟩
  · next hnew =>
    -- Without an entry, a module that was found is not remote, and any other gets one.
    split at hresolve
    · cases hresolve
      simp [Resolver.isRemote, ModuleCache.contains, hnew] at hremote
    · obtain ⟨base, -, rfl, rfl⟩ := Resolver.exists_of_redirectNew hnew hresolve
      exact ⟨_, Resolver.get?_redirect hnew base, rfl⟩

/-- A namespace with the URL among its keys makes the module a fetched one. -/
theorem redirectsTo_again {keys : List Text} (hfree : Resolver.isFixed specifier = false)
    (h : RedirectsTo k r r' specifier url false) (hkeys : k'.namespaceKeys = some keys)
    (hurl : url ∈ keys) : ∃ r₂, RedirectsTo k' r' r₂ specifier url true := by
  obtain ⟨r₁, hresolve, hremote, hfetched, rfl⟩ := h
  obtain ⟨m, hentry, rfl⟩ := get?_of_resolve hfree hresolve hremote
  rw [ModuleCache.snd_isFetched_of_not hfetched]
  have hagain := Resolver.resolve_of_get? hfree hentry k'.lookup
  refine ⟨_, r₁, hagain, hremote, ?_, rfl⟩
  rw [hkeys]
  exact ModuleCache.fst_isFetched_of_mem hentry hurl

section

variable {h : Host} {m : Val} {importOptions : Text} {g g' : Globals} {s : Source}

/-- A module that was not fetched is imported and stored. -/
theorem provides_imported (hmodule : h.module url importOptions = m) (hsettled : h.settled m = m) :
    (redirected url importOptions false).Provides h m g (g.store url m) := by
  have himport : (importCall (.string url) importOptions).eval h [] g =
      some (.value (.promise m), g) := by
    simp only [eval, Option.bind_eq_bind, Option.bind_some, Operand.value?_value, hmodule, hsettled]
  have hstore := eval_andThen himport (maps_storeCallback url)
  rwa [hsettled] at hstore

/-- A module that was fetched is read from the globals. -/
theorem provides_stored (hstored : g url = some m) :
    (redirected url importOptions true).Provides h m g g :=
  run_globalLookup hstored

/-- A module as a promise settles with the module. -/
theorem eval_asPromise (hsettled : h.settled m = m) (hs : s.Provides h m g g') :
    (asPromise s).eval h [] g = some (.value (.promise m), g') := by
  cases s with
  | promise e => exact hs
  | loaded e =>
    have hloaded : e.run h [] g = some (m, g') := hs
    rw [asPromise, eval_promiseFor hloaded, hsettled]

end

end Rewriting

/-! ## What a statement binds -/

def ImportBindings.target : ImportBindings → Text
  | namespaceAs name => name
  | named specifiers => BindingPattern.object specifiers

/-- The target and the value of an import of the module `m`. The value `lone` stands for the default
export where it is bound by itself. -/
def ImportClause.bound (h : Host) (m lone : Val) : ImportClause → Option (Text × Val)
  | nothing => none
  | bindings b => some (b.target, m)
  | default name => some (name, lone)
  | both name b => some (BindingPattern.array [b.target, name], .array [m, h.unwrapped m])

namespace StatementForm

/-- The specifier of the module that a statement loads. -/
def specifier? : StatementForm → Option Text
  | importing source _ => some source
  | declaration _ _ (some b) => some b.load.specifier
  | _ => none

/-- The text after the specifier of a dynamic import. -/
def importOptions : StatementForm → Text
  | declaration _ _ (some ⟨_, .dynamicImport _ _ _ _ options _⟩) => options
  | _ => []

/-- Whether the default export is bound, and nothing else is. -/
def bindsDefaultAlone : StatementForm → Bool
  | importing _ (.default _) | declaration _ _ (some ⟨_, .require ..⟩) => true
  | _ => false

/-- What a statement binds when its module is `m`, and the globals after it: as they were before,
but for what the user's own text around a dynamic import does. The value `lone` stands for the
default export where it is bound by itself. -/
def outcome (h : Host) (o : RewriteOptions) (m lone : Val) (g : Globals) :
    StatementForm → Option (Option Binding × Globals)
  | importing _ clause =>
    some ((clause.bound h m lone).map fun (target, v) =>
      ⟨DeclarationKind.varKind.spelling, target, v⟩, g)
  | declaration kind _ (some ⟨target, .require ..⟩) =>
    some (some ⟨Rewriting.declarationWord o kind, target, lone⟩, g)
  | declaration kind _ (some ⟨target, .dynamicImport _ _ _ lead _ tail⟩) =>
    (h.around lead tail (.promise m) g).map fun (v, g) =>
      (some ⟨Rewriting.declarationWord o kind, target, v⟩, g)
  | _ => none

/-- The value that stands for the default export matters just where it is bound by itself. -/
theorem outcome_eq_iff {h : Host} {o : RewriteOptions} {m v w : Val} {g : Globals}
    (form : StatementForm) :
    form.outcome h o m v g = form.outcome h o m w g ↔ (form.bindsDefaultAlone = true → v = w) := by
  cases form with
  | importing source clause =>
    cases clause <;> simp [outcome, bindsDefaultAlone, ImportClause.bound]
  | declaration kind body binding =>
    rcases binding with - | ⟨target, load⟩
    · simp [outcome, bindsDefaultAlone]
    · cases load <;> simp [outcome, bindsDefaultAlone]
  | shellCommand | plain => simp [outcome, bindsDefaultAlone]

end StatementForm

namespace Rewriting

open Expression

variable {k k' : RewriteContext} {r r' r₁ r₁' : Resolver} {specifier url : Text} {fetched : Bool}
  {h : Host} {m : Val} {s : Source} {g g' : Globals} {st : Statement}

/-! ## What the generated statement binds -/

theorem run_importing (hs : s.Provides h m g g') (clause : ImportClause) (source : Text)
    (o : RewriteOptions) :
    (importing clause s).run h g =
      (StatementForm.importing source clause).outcome h o m (s.received h (h.unwrapped m)) g' := by
  -- A pair is no thenable, so a promise for it settles with it.
  have hpair : s.received h (.array [m, h.unwrapped m]) = .array [m, h.unwrapped m] := by
    cases s <;> rfl
  have hplain := run_settle_none hs
  have hunwrapped := run_settle_some hs maps_unwrapCallback
  have hpaired := run_settle_some hs maps_pairCallback
  rw [hpair] at hpaired
  cases clause with
  | nothing => rw [importing, GeneratedStatement.run, hplain]; rfl
  | default name => rw [importing, GeneratedStatement.run, hunwrapped]; rfl
  | bindings b => cases b <;> (rw [importing, GeneratedStatement.run, hplain]; rfl)
  | both name b => cases b <;> (rw [importing, GeneratedStatement.run, hpaired]; rfl)

theorem run_declaration (hs : s.Provides h m g g') (kind target : Text) :
    (GeneratedStatement.declaration kind target (settle s (some unwrapCallback))).run h g =
      some (some ⟨kind, target, s.received h (h.unwrapped m)⟩, g') := by
  rw [GeneratedStatement.run, run_settle_some hs maps_unwrapCallback]
  rfl

/-- The user's text is given a promise for the module. -/
theorem run_spliced (hsettled : h.settled m = m) (hs : s.Provides h m g g')
    (kind target lead tail : Text) :
    (GeneratedStatement.declaration kind target
        (.spliced [raw lead, asPromise s, raw tail])).run h g =
      (h.around lead tail (.promise m) g').map fun (v, g) => (some ⟨kind, target, v⟩, g) := by
  have hpromise := eval_asPromise hsettled hs
  rw [GeneratedStatement.run, Expression.run, eval]
  simp only [hpromise, Option.bind_eq_bind, Option.bind_some, Operand.value?_value]
  cases h.around lead tail (.promise m) g' <;> rfl

/-- The rule that applies to a statement that loads a module builds a statement with the outcome
that is meant. -/
theorem exists_build {o : RewriteOptions} (happlies : appliesToLoad o st = true)
    (hspecifier : st.form.specifier? = some specifier) :
    ∃ literal build,
      (∀ k r p r', k.options = o →
        loading k specifier literal st.form.importOptions build st r = (.result p, r') →
          statement k st r = (.result p, r')) ∧
      ∀ h m s g g', h.settled m = m → Source.Provides h s m g g' →
        (build s).run h g = st.form.outcome h o m (s.received h (h.unwrapped m)) g' := by
  have hrewrites {plan : LoadPlan} (hplan : loadPlan? o st = some plan) (k : RewriteContext)
      (r : Resolver) (p : PrintableStatement) (r' : Resolver) (hk : k.options = o)
      (hloading : loading k plan.specifier plan.literal plan.importOptions plan.build st r =
        (.result p, r')) : statement k st r = (.result p, r') :=
    (statement_of_loadPlan? (hk ▸ hplan) r).trans hloading
  cases hform : st.form with
  | importing source clause =>
    simp only [appliesToLoad, hform] at happlies
    rw [hform] at hspecifier
    obtain rfl : source = specifier := Option.some.inj hspecifier
    have hplan : loadPlan? o st = some ⟨source, none, [], importing clause⟩ := by
      simp only [loadPlan?, hform, happlies, if_true]
    exact ⟨none, importing clause, hrewrites hplan,
      fun h m s g g' _ hs => run_importing hs clause source o⟩
  | declaration kind body binding =>
    rw [hform] at hspecifier
    rcases binding with - | ⟨target, load⟩
    · cases hspecifier
    cases load with
    | require place x =>
      simp only [appliesToLoad, hform] at happlies
      obtain rfl : x = specifier := Option.some.inj hspecifier
      have hplan : loadPlan? o st = some ⟨x, none, [], fun source =>
          .declaration (declarationWord o kind) target (settle source (some unwrapCallback))⟩ := by
        simp only [loadPlan?, hform, happlies, if_true]
      exact ⟨none, _, hrewrites hplan, fun h m s g g' _ hs => run_declaration hs _ target⟩
    | dynamicImport place x literal lead options tail =>
      simp only [appliesToLoad, hform] at happlies
      obtain rfl : x = specifier := Option.some.inj hspecifier
      have hplan : loadPlan? o st = some ⟨x, some literal, options, fun source =>
          .declaration (declarationWord o kind) target
            (.spliced [raw lead, asPromise source, raw tail])⟩ := by
        simp only [loadPlan?, hform, happlies, if_true]
      exact ⟨some literal, _, hrewrites hplan,
        fun h m s g g' hsettled hs => run_spliced hsettled hs _ target lead tail⟩
  | shellCommand | plain => simp [hform, StatementForm.specifier?] at hspecifier

/-- What a statement does before its module was fetched, when the import gives the module `m`, and
what it does afterwards, when the globals hold `m`. Before that, the module is also stored, and a
thenable as the default export is awaited where it is bound by itself. Nothing else differs: the two
statements do the same just if no such thenable is bound. -/
theorem run_eq_run_fetched_iff (hoptions : k'.options = k.options)
    (happlies : appliesToLoad k.options st = true)
    (hspecifier : st.form.specifier? = some specifier)
    (hbefore : RedirectsTo k r r₁ specifier url false)
    (hafter : RedirectsTo k' r' r₁' specifier url true)
    (hmodule : h.module url st.form.importOptions = m) (hsettled : h.settled m = m) :
    ∃ before after,
      statement k st r = (.result (.generated before), r₁) ∧
      statement k' st r' = (.result (.generated after), r₁') ∧
      (∀ g, before.run h g =
        st.form.outcome h k.options m (h.settled (h.unwrapped m)) (g.store url m)) ∧
      (∀ g, g url = some m →
        after.run h g = st.form.outcome h k.options m (h.unwrapped m) g) ∧
      ∀ g, before.run h g = after.run h (g.store url m) ↔
        (st.form.bindsDefaultAlone = true → h.settled (h.unwrapped m) = h.unwrapped m) := by
  obtain ⟨literal, build, hstatement, hrun⟩ := exists_build happlies hspecifier
  have himported : ∀ g, (build (redirected url st.form.importOptions false)).run h g =
      st.form.outcome h k.options m (h.settled (h.unwrapped m)) (g.store url m) :=
    fun g => hrun h m _ g _ hsettled (provides_imported hmodule hsettled)
  have hstored : ∀ g, g url = some m → (build (redirected url st.form.importOptions true)).run h g =
      st.form.outcome h k.options m (h.unwrapped m) g :=
    fun g hg => hrun h m _ g g hsettled (provides_stored hg)
  refine ⟨_, _, hstatement k r _ _ rfl (loading_of_redirectsTo hbefore literal _ build st),
    hstatement k' r' _ _ hoptions (loading_of_redirectsTo hafter literal _ build st),
    himported, hstored, fun g => ?_⟩
  rw [himported, hstored _ (g.store_self url m)]
  exact StatementForm.outcome_eq_iff st.form

/-- A host in which every module has a promise as its default export. -/
def promisingHost : Host where
  property _ _ := .promise (.text "later".toList)
  thenable _ := none
  module _ _ := .other 0
  around _ _ v g := some (v, g)

/-- A default import of such a module binds what the promise settles with, and binds the promise
itself once the module was fetched. -/
theorem run_ne_run_fetched_promise :
    let url := Specifier.cdnUrl Resolver.defaultCdnBase "x".toList
    let st : Statement := ⟨⟨0, 17⟩, "import d from 'x'".toList,
      .importing "x".toList (.default "d".toList)⟩
    ∃ before after r r',
      statement ⟨.default, fun _ => .ok false, none⟩ st
        (.fresh (some Resolver.defaultCdnBase)) = (.result (.generated before), r) ∧
      statement ⟨.default, fun _ => .ok false, some [url]⟩ st r =
        (.result (.generated after), r') ∧
      ∀ g : Globals,
        before.run promisingHost g = some (some ⟨"var".toList, "d".toList, .text "later".toList⟩,
          g.store url (.other 0)) ∧
        after.run promisingHost (g.store url (.other 0)) =
          some (some ⟨"var".toList, "d".toList, .promise (.text "later".toList)⟩,
            g.store url (.other 0)) ∧
        before.run promisingHost g ≠ after.run promisingHost (g.store url (.other 0)) := by
  intro url st
  let k : RewriteContext := ⟨.default, fun _ => .ok false, none⟩
  let k' : RewriteContext := ⟨.default, fun _ => .ok false, some [url]⟩
  have hbefore : RedirectsTo k (.fresh (some Resolver.defaultCdnBase))
      ⟨some Resolver.defaultCdnBase, ⟨[⟨"x".toList, url, false⟩]⟩,
        [Resolver.notice "x".toList]⟩ "x".toList url false :=
    ⟨_, rfl, by decide, by decide, by decide⟩
  obtain ⟨r', hafter⟩ : ∃ r', RedirectsTo k' _ r' "x".toList url true :=
    redirectsTo_again (by decide) hbefore rfl (by simp)
  have hoptions : k'.options = k.options := rfl
  have happlies : appliesToLoad k.options st = true := rfl
  have hmodule : promisingHost.module url st.form.importOptions = .other 0 := rfl
  obtain ⟨before, after, hfirst, hsecond, hruns, hruns', hsame⟩ :=
    run_eq_run_fetched_iff hoptions happlies rfl hbefore hafter hmodule rfl
  refine ⟨before, after, _, r', hfirst, hsecond, fun g => ⟨hruns g, ?_, ?_⟩⟩
  · exact hruns' _ (g.store_self url _)
  · intro h
    have hsettled := (hsame g).mp h rfl
    cases hsettled

end Rewriting

end ReplCore
