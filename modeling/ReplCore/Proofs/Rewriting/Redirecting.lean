import ReplCore.Proofs.Modules.Redirects
import ReplCore.Proofs.Rewriting.Effects
import ReplCore.Proofs.Rewriting.Loading

/-!
# What a submission redirects

A specifier that a statement loads is redirected if that is due: if it names a package, has no entry
yet, and is not found locally. A redirect of it makes no other one due, so a submission redirects the
specifiers that are due before it, each once and in the order of the statements.

* `load_eq`: loading a specifier redirects it if that is due.
* `redirects_of_submission`: the entries and the notices that a submission adds.
-/

namespace ReplCore

namespace Resolver

variable {r r' r'' : Resolver} {base : Text} {lookup : LocalLookup} {s : Text}

theorem isRemote_iff : r.isRemote s = true ↔ s ∈ r.cache.modules.map CachedModule.specifier := by
  rw [isRemote, ModuleCache.contains, Option.isSome_iff_ne_none, Ne, ModuleCache.get?_eq_none_iff,
    not_not]

/-- Whether loading a specifier redirects it. -/
def isDue (r : Resolver) (lookup : LocalLookup) (s : Text) : Bool :=
  !isFixed s && !r.isRemote s && !lookup.finds s

/-- The resolver once a specifier was resolved. -/
def resolved (r : Resolver) (lookup : LocalLookup) (base s : Text) : Resolver :=
  if r.isDue lookup s then r.redirect base s else r

/-- Resolving redirects what is due and has no other effect. -/
theorem resolve_eq (hbase : r.cdnBase = some base) (lookup : LocalLookup) (s : Text) : ∃ target,
    r.resolve lookup s true = .ok (target, r.resolved lookup base s) := by
  cases hfixed : isFixed s with
  | true => simp [resolve_def, resolved, isDue, hfixed]
  | false =>
    cases hentry : r.cache.get? s with
    | some m => simp [resolve_def, resolved, isDue, isRemote, ModuleCache.contains, hfixed, hentry]
    | none =>
      cases hfinds : lookup.finds s <;>
        simp [resolve_def, resolved, isDue, isRemote, ModuleCache.contains, redirect,
          redirectNew_eq hentry hbase, hfixed, hentry, hfinds]

/-! ## Redirects of several specifiers -/

/-- The second resolver has redirected and announced some specifiers that the first has not, and all
other targets are as they were. -/
structure Redirects (base : Text) (r r' : Resolver) (new : List Text) : Prop where
  cdnBase_eq : r'.cdnBase = r.cdnBase
  specifiers_eq : r'.cache.modules.map CachedModule.specifier =
    r.cache.modules.map CachedModule.specifier ++ new
  targets_eq : r'.cache.modules.map CachedModule.target =
    r.cache.modules.map CachedModule.target ++ new.map (Specifier.cdnUrl base)
  notices_eq : r'.notices = r.notices ++ new.map notice

namespace Redirects

variable {new more : List Text}

theorem trans (h : Redirects base r r' new) (h' : Redirects base r' r'' more) :
    Redirects base r r'' (new ++ more) where
  cdnBase_eq := h'.cdnBase_eq.trans h.cdnBase_eq
  specifiers_eq := by rw [h'.specifiers_eq, h.specifiers_eq, List.append_assoc]
  targets_eq := by rw [h'.targets_eq, h.targets_eq, List.map_append, List.append_assoc]
  notices_eq := by rw [h'.notices_eq, h.notices_eq, List.map_append, List.append_assoc]

theorem isRemote_iff (h : Redirects base r r' new) :
    r'.isRemote s = true ↔ r.isRemote s = true ∨ s ∈ new := by
  rw [Resolver.isRemote_iff, Resolver.isRemote_iff, h.specifiers_eq, List.mem_append]

/-- What is due afterwards was due before and was not redirected. -/
theorem isDue_eq (h : Redirects base r r' new) (lookup : LocalLookup) (s : Text) :
    r'.isDue lookup s = (r.isDue lookup s && decide (s ∉ new)) := by
  have hremote : r'.isRemote s = (r.isRemote s || decide (s ∈ new)) := by
    rw [Bool.eq_iff_iff, h.isRemote_iff]
    simp
  simp only [isDue, hremote, Bool.not_or, decide_not]
  ac_rfl

end Redirects

theorem redirects_resolved (r : Resolver) (lookup : LocalLookup) (base s : Text) :
    Redirects base r (r.resolved lookup base s) ([s].filter (r.isDue lookup)) := by
  unfold resolved
  cases hdue : r.isDue lookup s with
  | true => constructor <;> simp [redirect, hdue]
  | false => constructor <;> simp [hdue]

/-- Asking whether a module was fetched keeps every entry. -/
theorem redirects_isFetched (r : Resolver) (base s : Text) (keys : Option (List Text)) :
    Redirects base r { r with cache := (r.cache.isFetched s keys).2 } [] := by
  have hnote : (r.cache.note s).modules.map CachedModule.target =
      r.cache.modules.map CachedModule.target := by
    rw [ModuleCache.note, List.map_map]
    refine List.map_congr_left fun m _ => ?_
    rw [Function.comp]
    split <;> rfl
  unfold ModuleCache.isFetched
  split
  · constructor <;> simp
  · split
    · constructor <;> simp
    · split
      · constructor <;> simp [hnote]
      · constructor <;> simp

end Resolver

namespace Rewriting

open Expression Resolver

variable {k : RewriteContext} {r : Resolver} {base specifier : Text} {st : Statement}

/-! ## What one statement redirects -/

/-- The resolver once a specifier was loaded: it was resolved, and may be noted as fetched. -/
def loaded (k : RewriteContext) (base : Text) (r : Resolver) (specifier : Text) : Resolver :=
  let r := r.resolved k.lookup base specifier
  { r with cache := (r.cache.isFetched specifier k.namespaceKeys).2 }

theorem redirects_loaded (k : RewriteContext) (base : Text) (r : Resolver) (specifier : Text) :
    Redirects base r (loaded k base r specifier) ([specifier].filter (r.isDue k.lookup)) := by
  have hresolved := redirects_resolved r k.lookup base specifier
  have hasked := redirects_isFetched (r.resolved k.lookup base specifier) base specifier
    k.namespaceKeys
  rw [← List.append_nil ([specifier].filter (r.isDue k.lookup))]
  exact hresolved.trans hasked

/-- Loading a specifier redirects it if that is due, and asks whether it was fetched. -/
theorem load_eq (hbase : r.cdnBase = some base) (k : RewriteContext) (specifier : Text)
    (literal : Option Text) (importOptions : Text) :
    ∃ source, load k r specifier literal importOptions = .ok (source, loaded k base r specifier) := by
  obtain ⟨target, hresolve⟩ := resolve_eq hbase k.lookup specifier
  simp only [load, hresolve, Except.map, loaded]
  generalize r.resolved k.lookup base specifier = r₁
  cases hremote : r₁.isRemote specifier with
  | false =>
    -- There is no entry to ask for.
    have hnone : r₁.cache.get? specifier = none := by
      simpa [isRemote, ModuleCache.contains] using hremote
    exact ⟨_, by simp [ModuleCache.isFetched, hnone]; rfl⟩
  | true =>
    by_cases hseen : (r₁.cache.isFetched specifier k.namespaceKeys).1 = true
    · exact ⟨_, by simp only [hseen, if_true]; rfl⟩
    · exact ⟨_, by simp only [hseen]; rfl⟩

/-- A statement loads the specifier of its plan. -/
theorem statement_eq_loaded {plan : LoadPlan} (hbase : r.cdnBase = some base)
    (hplan : loadPlan? k.options st = some plan) :
    ∃ source, load k r plan.specifier plan.literal plan.importOptions =
        .ok (source, loaded k base r plan.specifier) ∧
      statement k st r =
        (.result (.generated (plan.build source)), loaded k base r plan.specifier) := by
  obtain ⟨source, hload⟩ :=
    load_eq hbase k plan.specifier plan.literal plan.importOptions
  exact ⟨source, hload, by rw [statement_of_loadPlan? hplan, loading, hload]⟩

/-! ## What a submission redirects -/

/-- What one specifier and those after it make due: the first, if it is due, and what is due after
it. -/
theorem eraseDups_filter_cons {r r' : Resolver} {lookup : LocalLookup} {x : Text} {xs : List Text}
    (h : Redirects base r r' ([x].filter (r.isDue lookup))) :
    [x].filter (r.isDue lookup) ++ (xs.filter (r'.isDue lookup)).eraseDups =
      ((x :: xs).filter (r.isDue lookup)).eraseDups := by
  have hfilter : xs.filter (r'.isDue lookup) = (xs.filter (r.isDue lookup)).filter
      (fun y => decide (y ∉ [x].filter (r.isDue lookup))) := by
    rw [List.filter_filter]
    refine List.filter_congr fun y _ => ?_
    rw [h.isDue_eq, Bool.and_comm]
  rw [hfilter]
  cases hdue : r.isDue lookup x with
  | false => simp [hdue]
  | true =>
    simp only [List.filter_cons, hdue, if_true, List.filter_nil, List.singleton_append,
      List.eraseDups_cons, List.mem_singleton]
    congr 2
    refine List.filter_congr fun y _ => ?_
    rw [Bool.eq_iff_iff]
    simp

theorem redirects_foldl_loaded (k : RewriteContext) (base : Text) (xs : List Text) : ∀ r,
    Redirects base r (xs.foldl (loaded k base) r) (xs.filter (r.isDue k.lookup)).eraseDups := by
  induction xs with
  | nil => exact fun r => by constructor <;> simp
  | cons x xs ih =>
    intro r
    have hfirst := redirects_loaded k base r x
    rw [← eraseDups_filter_cons hfirst]
    exact hfirst.trans (ih _)

/-- The statements of a submission load their specifiers one after the other. -/
theorem exists_each_eq (k : RewriteContext) (statements : List Statement) :
    ∀ {r : Resolver}, r.cdnBase = some base → ∃ ps, (statement k).each statements r =
      (.result ps, (statements.filterMap (loadedSpecifier? k.options)).foldl (loaded k base) r) := by
  induction statements with
  | nil => exact fun _ => ⟨[], rfl⟩
  | cons st statements ih =>
    intro r hbase
    have hspecifier := map_specifier_loadPlan? k.options st
    cases hplan : loadPlan? k.options st with
    | none =>
      rw [hplan] at hspecifier
      obtain ⟨ps, hmore⟩ := ih hbase
      rw [List.filterMap_cons_none hspecifier.symm]
      exact ⟨_, Visitor.each_cons (statement_of_loadPlan?_eq_none hplan r) hmore⟩
    | some plan =>
      rw [hplan] at hspecifier
      obtain ⟨source, -, hstatement⟩ := statement_eq_loaded hbase hplan
      obtain ⟨ps, hmore⟩ := ih ((redirects_loaded k base r plan.specifier).cdnBase_eq.trans hbase)
      rw [List.filterMap_cons_some hspecifier.symm]
      exact ⟨_, Visitor.each_cons hstatement hmore⟩

end Rewriting

namespace Transpiler

variable {t : Transpiler} {source label : Text}

theorem options_stripTypes (t : Transpiler) (source label : Text) :
    (t.stripTypes source label).2.options = t.options := by
  unfold stripTypes
  split <;> rfl

/-- Without a rule to apply, without a word or a tag to look for, or without a submission to read,
transpiling only strips types. -/
theorem transpile_of_unread (lookup : LocalLookup) (keys : Option (List Text))
    (h : t.options.rewritesAnything = false ∨
      t.options.shouldSkip (t.stripTypes source label).1 = true ∨
      ∃ e, Submission.read (t.stripTypes source label).1 = .error e) :
    t.transpile lookup source keys label =
      (.ok (t.stripTypes source label).1, (t.stripTypes source label).2) := by
  simp only [transpile, transpileStripped, options_stripTypes]
  rcases h with h | h | ⟨e, h⟩
  · simp [h]
  · simp [h]
  · rw [h]
    split <;> rfl

end Transpiler

namespace Rewriting

open Resolver

/-- Whatever a resolver holds, rewriting a submission adds and announces an entry for exactly these
specifiers, in this order: those that its statements load by the rules that are switched on, without
modules of the host, paths, URLs, specifiers with an entry, those found locally, and repetitions. All
other targets stay. Without the rules on modules nothing changes at all, nor does it if a text is
transpiled without reading it. -/
theorem redirects_of_submission (k : RewriteContext) (s : Submission) (base : Text)
    (cache : ModuleCache) (notices : List Text) :
    let r : Resolver := ⟨some base, cache, notices⟩
    let new := ((s.statements.filterMap (loadedSpecifier? k.options)).filter fun x =>
      !Specifier.isBuiltin x && !Specifier.isPath x && !Specifier.isUrl x && !cache.contains x &&
        !k.lookup.finds x).eraseDups
    (∃ ps r', submission k s r = (.result ps, r') ∧
      r'.cache.modules.map CachedModule.specifier =
        cache.modules.map CachedModule.specifier ++ new ∧
      r'.cache.modules.map CachedModule.target =
        cache.modules.map CachedModule.target ++ new.map (Specifier.cdnUrl base) ∧
      r'.notices = notices ++ new.map notice) ∧
    (k.options.resolvesModules = false → ∃ ps, submission k s r = (.result ps, r)) ∧
    ∀ (t : Transpiler) (source label : Text), (t.options.rewritesAnything = false ∨
        t.options.shouldSkip (t.stripTypes source label).1 = true ∨
        ∃ e, Submission.read (t.stripTypes source label).1 = .error e) →
      (t.transpile k.lookup source k.namespaceKeys label).2.resolver = t.resolver := by
  intro r new
  refine ⟨?_, fun hnone => ?_, fun t source label hunread => ?_⟩
  · obtain ⟨ps, heach⟩ := exists_each_eq (r := r) k s.statements rfl
    have h := redirects_foldl_loaded k base (s.statements.filterMap (loadedSpecifier? k.options)) r
    have hnew : ((s.statements.filterMap (loadedSpecifier? k.options)).filter
        (r.isDue k.lookup)).eraseDups = new := by
      congr 1
      refine List.filter_congr fun x _ => ?_
      simp only [isDue, isFixed, Bool.not_or]
      rfl
    rw [hnew] at h
    exact ⟨ps, _, heach, h.specifiers_eq, h.targets_eq, h.notices_eq⟩
  · refine ⟨_, submission_eq (fun st _ => ?_) r⟩
    simp only [RewriteOptions.resolvesModules, Bool.or_eq_false_iff] at hnone
    unfold appliesToLoad
    split
    · exact hnone.1.1
    · exact hnone.1.2
    · exact hnone.2
    · rfl
  · rw [Transpiler.transpile_of_unread _ _ hunread, Transpiler.resolver_stripTypes]

/-- Two packages, one of them imported twice. With the rules on modules
switched off nothing is redirected, and nor is it in a submission that is never closed. -/
theorem redirects_of_submission_two_packages :
    (∃ s, Submission.read "import 'b'\nlet a = require('a')\nimport 'b'".toList = .ok s ∧
      (∃ ps r', submission ⟨.default, fun _ => .ok false, none⟩ s (.fresh (some "cdn".toList)) =
          (.result ps, r') ∧
        r'.cache.modules.map CachedModule.specifier = ["b".toList, "a".toList]) ∧
      ∃ ps, submission ⟨⟨false, false, false, true, true, none⟩, fun _ => .ok false, none⟩ s
        (.fresh (some "cdn".toList)) = (.result ps, .fresh (some "cdn".toList))) ∧
    ((Transpiler.fresh .default (some "cdn".toList) none).transpile (fun _ => .ok false)
      "import 'a'; (".toList none []).2.resolver =
        (Transpiler.fresh .default (some "cdn".toList) none).resolver := by
  have hread : ((Submission.read "import 'b'\nlet a = require('a')\nimport 'b'".toList).toOption.map
      fun s => s.statements.filterMap (loadedSpecifier? .default)) =
        some ["b".toList, "a".toList, "b".toList] := by
    decide +kernel
  obtain ⟨s, hs, hloads⟩ := Option.map_eq_some_iff.mp hread
  have hunread : ∃ e, Submission.read "import 'a'; (".toList = .error e := by
    have hclosed : (Submission.read "import 'a'; (".toList).toOption = none := by
      decide +kernel
    cases h : Submission.read "import 'a'; (".toList with
    | error e => exact ⟨e, rfl⟩
    | ok s => rw [h] at hclosed; cases hclosed
  refine ⟨⟨s, eq_ok_of_toOption hs, ?_, ?_⟩, ?_⟩
  · obtain ⟨⟨ps, r', hsubmission, hspecifiers, -⟩, -⟩ :=
      redirects_of_submission ⟨.default, fun _ => .ok false, none⟩ s "cdn".toList .empty []
    refine ⟨ps, r', hsubmission, ?_⟩
    rw [hspecifiers, hloads]
    decide +kernel
  · obtain ⟨-, hoff, -⟩ := redirects_of_submission
      ⟨⟨false, false, false, true, true, none⟩, fun _ => .ok false, none⟩ s "cdn".toList .empty []
    exact hoff rfl
  · obtain ⟨-, -, hearly⟩ :=
      redirects_of_submission ⟨.default, fun _ => .ok false, none⟩ s "cdn".toList .empty []
    rw [hearly (.fresh .default (some "cdn".toList) none) "import 'a'; (".toList []
      (.inr (.inr hunread))]

end Rewriting

end ReplCore
