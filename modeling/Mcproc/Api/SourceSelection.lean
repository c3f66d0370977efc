import Mcproc.Api.LogSources
import Mcproc.Lib.Distinct

namespace LogSources

open ProcessHandlers (Status)
open Validation (ValidProcess ValidProject validateProcessName validateProjectName)

def additionalNames (requested discovered : List String) : List String :=
  if requested.isEmpty then discovered else requested.filter (· ∈ discovered)

def sourceNames (registered : List ProcessKey) (requested discovered : List String) : List String :=
  Distinct.extend (registered.map ProcessKey.name)
    ((additionalNames requested discovered).filter (ValidProcess ·))

theorem mem_additionalNames {requested discovered : List String} {name : String} :
    name ∈ additionalNames requested discovered ↔
      name ∈ discovered ∧ (requested = [] ∨ name ∈ requested) := by
  simp only [additionalNames]
  split
  · next h => simp [List.isEmpty_iff.mp h]
  · next h =>
    rw [List.isEmpty_iff] at h
    simp [h, and_comm]

-- The pairs of `resolve_log_sources` are the names it has seen, each with the project.
structure Tracks (project : String) (names : List String) (acc : List ProcessKey × List String) :
    Prop where
  keys : acc.1 = names.map (ProcessKey.mk project)
  seen : ∀ name, name ∈ acc.2 ↔ name ∈ names

theorem Tracks.registered {project : String} {registered : List ProcessKey}
    (h : ∀ k ∈ registered, k.project = project) :
    Tracks project (registered.map ProcessKey.name)
      (registered, registered.map ProcessKey.name) := by
  refine ⟨?_, fun _ => Iff.rfl⟩
  rw [List.map_map]
  refine ((List.map_congr_left fun k hk => ?_).trans (List.map_id registered)).symm
  rw [Function.comp_apply, ← h k hk]
  rfl

theorem Tracks.add {project : String} {names : List String} {acc : List ProcessKey × List String}
    (h : Tracks project names acc) {name : String} (hv : ValidProcess name) :
    Tracks project (Distinct.push names name) (addSource project acc name) := by
  simp only [Distinct.push, addSource, hv, true_and, h.seen name]
  by_cases hn : name ∈ names
  · rwa [if_pos hn, if_neg (not_not.mpr hn)]
  · rw [if_neg hn, if_pos hn]
    refine ⟨?_, fun m => ?_⟩
    · rw [h.keys, List.map_append]
      rfl
    · rw [List.mem_cons, h.seen, List.mem_append, List.mem_singleton, or_comm]

theorem Tracks.addAll {project : String} {names : List String}
    {acc : List ProcessKey × List String} (h : Tracks project names acc) (more : List String) :
    Tracks project (Distinct.extend names (more.filter (ValidProcess ·)))
      (more.foldl (addSource project) acc) := by
  induction more generalizing names acc with
  | nil => exact h
  | cons name more ih =>
    by_cases hv : ValidProcess name
    · rw [List.filter_cons_of_pos (by simpa using hv)]
      exact ih (h.add hv)
    · have hskip : addSource project acc name = acc := if_neg fun hn => hv hn.1
      rw [List.filter_cons_of_neg (by simpa using hv), List.foldl_cons, hskip]
      exact ih h

theorem checkNames_error {names : List String} :
    (∃ e, checkNames names = .error e) ↔ ∃ name ∈ names, ¬ ValidProcess name := by
  induction names with
  | nil => simp [checkNames]
  | cons name names ih =>
    simp only [checkNames, List.exists_mem_cons_iff, ValidProcess] at ih ⊢
    cases validateProcessName name with
    | error e => simp
    | ok u => simpa using ih

theorem resolveLogSources_eq {project : String} (hp : ValidProject project)
    {registered : List ProcessKey} (hr : ∀ k ∈ registered, k.project = project)
    (requested discovered : List String) :
    resolveLogSources project registered requested discovered =
      (checkNames requested).map fun _ =>
        (sourceNames registered requested discovered).map (ProcessKey.mk project) := by
  have hproject : validateProjectName project = .ok () := hp
  have htracks := (Tracks.registered hr).addAll (additionalNames requested discovered)
  simp only [resolveLogSources, hproject]
  cases checkNames requested with
  | error e => rfl
  | ok u => exact congrArg Except.ok htracks.keys

theorem sourceNames_eraseDups (registered : List ProcessKey) (requested discovered : List String) :
    sourceNames registered requested.eraseDups discovered.eraseDups =
      sourceNames registered requested discovered := by
  have hempty : requested.eraseDups.isEmpty = requested.isEmpty := by
    cases requested <;> simp [List.eraseDups_cons]
  simp only [sourceNames, additionalNames, hempty, List.mem_eraseDups]
  split
  · exact Distinct.extend_eraseDups _ (Nat.le_refl _)
  · rw [List.filter_filter, List.filter_filter]
    exact Distinct.extend_eraseDups _ (Nat.le_refl _)

theorem checkNames_filter_ne {name : String} (hv : ValidProcess name) (names : List String) :
    checkNames (names.filter fun n => !n == name) = checkNames names := by
  induction names with
  | nil => rfl
  | cons n names ih =>
    by_cases hn : n = name
    · have hcheck : validateProcessName n = .ok () := hn ▸ hv
      rw [List.filter_cons_of_neg (by simpa using hn), ih, checkNames, hcheck]
    · rw [List.filter_cons_of_pos (by simpa using hn), checkNames, checkNames, ih]

theorem checkNames_eraseDups {n : Nat} {names : List String} (hn : names.length ≤ n) :
    checkNames names.eraseDups = checkNames names := by
  induction n generalizing names with
  | zero => rw [List.eq_nil_of_length_eq_zero (Nat.le_zero.mp hn)]; rfl
  | succ n ih =>
    cases names with
    | nil => rfl
    | cons name names =>
      have hlen : (names.filter fun m => !m == name).length ≤ n :=
        Nat.le_trans (List.length_filter_le _ names) (Nat.le_of_succ_le_succ hn)
      rw [List.eraseDups_cons, checkNames, checkNames, ih hlen]
      cases hv : validateProcessName name with
      | error e => rfl
      | ok u => exact checkNames_filter_ne hv names

structure Exact (project : String) (registered : List ProcessKey)
    (requested discovered : List String) (sources : List ProcessKey) : Prop where
  distinct : sources.Nodup
  inProject : ∀ k ∈ sources, k.project = project
  registeredFirst : registered <+: sources
  names : ∀ name, name ∈ sources.map ProcessKey.name ↔
    name ∈ registered.map ProcessKey.name ∨
      ValidProcess name ∧ name ∈ discovered ∧ (requested = [] ∨ name ∈ requested)

theorem sourceNames_exact {project : String} {registered : List ProcessKey}
    (hr : ∀ k ∈ registered, k.project = project) (hn : (registered.map ProcessKey.name).Nodup)
    (requested discovered : List String) :
    Exact project registered requested discovered
      ((sourceNames registered requested discovered).map (ProcessKey.mk project)) := by
  have hnames : ((sourceNames registered requested discovered).map (ProcessKey.mk project)).map
      ProcessKey.name = sourceNames registered requested discovered := by
    rw [List.map_map]
    exact List.map_id _
  refine ⟨?_, fun k hk => ?_, ?_, fun name => ?_⟩
  · exact (Distinct.nodup_extend hn _).map fun a b e => (ProcessKey.mk.inj e).2
  · obtain ⟨name, -, rfl⟩ := List.mem_map.mp hk
    rfl
  · have hprefix := (Distinct.prefix_extend (registered.map ProcessKey.name)
      ((additionalNames requested discovered).filter (ValidProcess ·))).map (ProcessKey.mk project)
    rwa [← (Tracks.registered hr).keys] at hprefix
  · rw [hnames, sourceNames, Distinct.mem_extend, List.mem_filter, mem_additionalNames,
      decide_eq_true_iff, and_comm]

theorem resolveLogSources_exact {project : String} (hp : ValidProject project)
    {registered : List ProcessKey} (hr : ∀ k ∈ registered, k.project = project)
    (hn : (registered.map ProcessKey.name).Nodup) {requested discovered : List String}
    {sources : List ProcessKey}
    (h : resolveLogSources project registered requested discovered = .ok sources) :
    Exact project registered requested discovered sources := by
  rw [resolveLogSources_eq hp hr] at h
  cases hc : checkNames requested with
  | error e => rw [hc] at h; cases h
  | ok u =>
    rw [hc] at h
    rw [← Except.ok.inj h]
    exact sourceNames_exact hr hn requested discovered

theorem sources_exact {project : String} (hp : ValidProject project)
    {registered : List ProcessKey} (hr : ∀ k ∈ registered, k.project = project)
    (hn : (registered.map ProcessKey.name).Nodup) (requested discovered : List String) :
    ((∃ e, resolveLogSources project registered requested discovered = .error e) ↔
        ∃ name ∈ requested, ¬ ValidProcess name) ∧
      (∀ sources, resolveLogSources project registered requested discovered = .ok sources →
        Exact project registered requested discovered sources) ∧
      resolveLogSources project registered requested.eraseDups discovered.eraseDups =
        resolveLogSources project registered requested discovered := by
  refine ⟨?_, fun sources h => resolveLogSources_exact hp hr hn h, ?_⟩
  · rw [← checkNames_error, resolveLogSources_eq hp hr]
    cases checkNames requested <;> simp [Except.map]
  · rw [resolveLogSources_eq hp hr, resolveLogSources_eq hp hr,
      checkNames_eraseDups (Nat.le_refl _), sourceNames_eraseDups]

theorem sources_exact_overlap :
    Exact "app" [⟨"app", "web"⟩] ["api", "web", "api"] ["api", "db", "web"]
      [⟨"app", "web"⟩, ⟨"app", "api"⟩] :=
  (sources_exact (by decide) (by decide) (by decide) _ _).2.1 _ (by rfl)

end LogSources
