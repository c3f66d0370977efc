import Mcproc.Api.CleanProject

namespace LogSources

open Cleaner (DirEntry logExtension)
open CleanProject (getLogFilePathForKey plain_of_valid sanitizedName)
open OsString (Plain extension fileStem)
open ProcessHandlers (Status)
open Utf8 (encode)
open Validation (ValidProcess ValidProject validateProcessName validateProjectName)

-- The runtime directory is read from the environment as a String, so its components are Unicode.
structure LogDir where
  root : Bool
  components : List String

def LogDir.path (d : LogDir) : UnixPath := ⟨d.root, d.components.map encode⟩

def invalidProject (e : String) : Status := ⟨.invalidArgument, "Invalid project name: " ++ e⟩

def invalidProcess (e : String) : Status := ⟨.invalidArgument, "Invalid process name: " ++ e⟩

def grepLogPath (logDir : UnixPath) (project name : String) : Except Status UnixPath :=
  match validateProjectName project with
  | .error e => .error (invalidProject e)
  | .ok () =>
    match validateProcessName name with
    | .error e => .error (invalidProcess e)
    | .ok () => .ok (getLogFilePathForKey logDir ⟨project, name⟩)

-- The `log_file` of `create_process_info`, a String.
def processInfoLogFile (p : ProxyInfo) (logDir : UnixPath) : String :=
  ((logDir.join (encode p.project)).join
    (encode (String.ofList (p.name.toList.map fun c => if c = '/' then '_' else c) ++ ".log"))).toStringLossy

inductive Listing where
  | notFound
  | failed
  | entries (l : List (Option DirEntry))

def IsLogName (name : OsString) : Prop := (extension name).bind Utf8.fromUtf8 = some "log".toList

instance (name : OsString) : Decidable (IsLogName name) :=
  inferInstanceAs (Decidable (_ = _))

def stemName (name : OsString) : Option String :=
  (Utf8.fromUtf8 (fileStem name)).map String.ofList

def collectNames : List (Option DirEntry) → Option (List String)
  | [] => some []
  | none :: _ => none
  | some e :: rest =>
    if ¬ IsLogName e.name then collectNames rest
    else
      match e.fileType with
      | none => none
      | some .file => (collectNames rest).map ((stemName e.name).toList ++ ·)
      | some _ => collectNames rest

def discoverLogNames : Listing → Option (List String)
  | .notFound => some []
  | .failed => none
  | .entries l => (collectNames l).map fun names => names.mergeSort

def checkNames : List String → Except Status Unit
  | [] => .ok ()
  | name :: names =>
    match validateProcessName name with
    | .error e => .error (invalidProcess e)
    | .ok () => checkNames names

def addSource (project : String) (acc : List ProcessKey × List String) (name : String) :
    List ProcessKey × List String :=
  if ValidProcess name ∧ name ∉ acc.2 then (acc.1 ++ [⟨project, name⟩], name :: acc.2) else acc

def resolveLogSources (project : String) (registryMatches : List ProcessKey)
    (requestedNames discoveredLogNames : List String) : Except Status (List ProcessKey) :=
  match validateProjectName project with
  | .error e => .error (invalidProject e)
  | .ok () =>
    match checkNames requestedNames with
    | .error e => .error e
    | .ok () =>
      let additionalNames :=
        if requestedNames.isEmpty then discoveredLogNames
        else requestedNames.filter (· ∈ discoveredLogNames)
      .ok (additionalNames.foldl (addSource project)
        (registryMatches, registryMatches.map ProcessKey.name)).1

theorem validProcess_shape {name : String} (h : ValidProcess name) :
    name ≠ "" ∧ name ≠ "." ∧ name ≠ ".." ∧ '/' ∉ name.toList :=
  Validation.validateName_ok h

def logFileName (name : String) : OsString := encode name ++ OsString.dot :: logExtension

theorem encode_logFileName (name : String) : encode (name ++ ".log") = logFileName name := by
  have hext : encode ".log" = OsString.dot :: logExtension := by decide
  rw [Utf8.encode_append, hext]
  rfl

theorem logFileName_inj {name name' : String} (h : logFileName name = logFileName name') :
    name = name' :=
  Utf8.encode_injective (List.append_cancel_right h)

theorem encode_plain {name : String} (h : ValidProcess name) : Plain (encode name) := by
  obtain ⟨hne, hd, hdd, hs⟩ := validProcess_shape h
  exact OsString.plain_encode hne hd hdd hs

theorem logFileName_plain {name : String} (h : ValidProcess name) : Plain (logFileName name) := by
  obtain ⟨-, -, -, hs⟩ := validProcess_shape h
  have hext : ".log".toList.length = 4 := by decide
  rw [← encode_logFileName]
  refine OsString.plain_encode_long ?_ fun hmem => ?_
  · rw [String.toList_append, List.length_append]
    omega
  · rw [String.toList_append, List.mem_append] at hmem
    exact hmem.elim hs (by decide)

theorem sanitizedName_valid {k : ProcessKey} (h : ValidProcess k.name) :
    sanitizedName k = k.name := by
  obtain ⟨-, -, -, hs⟩ := validProcess_shape h
  have hmap : k.name.toList.map (fun c => if c = '/' then '_' else c) = k.name.toList := by
    refine (List.map_congr_left fun c hc => ?_).trans (List.map_id _)
    rw [if_neg fun e : c = '/' => hs (e ▸ hc)]
    rfl
  rw [sanitizedName, hmap, String.ofList_toList]

theorem getLogFilePathForKey_eq {k : ProcessKey} (hp : ValidProject k.project)
    (hn : ValidProcess k.name) (logDir : UnixPath) :
    getLogFilePathForKey logDir k =
      (logDir.child (encode k.project)).child (logFileName k.name) := by
  rw [getLogFilePathForKey, sanitizedName_valid hn, encode_logFileName,
    UnixPath.join_plain (plain_of_valid hp), UnixPath.join_plain (logFileName_plain hn)]

theorem child_child_inj {p : UnixPath} {a b c d : OsString}
    (h : (p.child a).child b = (p.child c).child d) : a = c ∧ b = d := by
  have hparts := congrArg UnixPath.parts h
  simp only [UnixPath.child, List.append_assoc, List.append_cancel_left_eq, List.cons_append,
    List.nil_append, List.cons.injEq, and_true] at hparts
  exact hparts

theorem getLogFilePathForKey_inj {k k' : ProcessKey} (hp : ValidProject k.project)
    (hn : ValidProcess k.name) (hp' : ValidProject k'.project) (hn' : ValidProcess k'.name)
    {logDir : UnixPath} (h : getLogFilePathForKey logDir k' = getLogFilePathForKey logDir k) :
    k' = k := by
  rw [getLogFilePathForKey_eq hp hn, getLogFilePathForKey_eq hp' hn'] at h
  obtain ⟨hproject, hname⟩ := child_child_inj h
  cases k
  cases k'
  rw [ProcessKey.mk.injEq]
  exact ⟨Utf8.encode_injective hproject, logFileName_inj hname⟩

theorem LogDir.path_unicode (d : LogDir) : d.path.Unicode := by
  intro c hc
  obtain ⟨s, -, rfl⟩ := List.mem_map.mp hc
  exact ⟨s, rfl⟩

theorem logExtension_split {name : String} (h : ValidProcess name) :
    extension (logFileName name) = some logExtension ∧ fileStem (logFileName name) = encode name :=
  OsString.split_dot (encode_plain h).1 (by decide) (by decide)

theorem isLogName_logFileName {name : String} (h : ValidProcess name) :
    IsLogName (logFileName name) := by
  rw [IsLogName, (logExtension_split h).1]
  decide

theorem stemName_logFileName {name : String} (h : ValidProcess name) :
    stemName (logFileName name) = some name := by
  rw [stemName, (logExtension_split h).2, Utf8.fromUtf8_encode, Option.map_some,
    String.ofList_toList]

theorem eq_logFileName {file : OsString} {name : String} (hlog : IsLogName file)
    (hstem : stemName file = some name) : file = logFileName name := by
  obtain ⟨ext, hext, htext⟩ := Option.bind_eq_some_iff.mp hlog
  obtain rfl : encode "log" = ext := by
    have h := Utf8.encode_of_fromUtf8 htext
    rwa [String.ofList_toList] at h
  obtain ⟨stem, hne, rfl⟩ := OsString.extension_some hext
  have hsplit := OsString.split_dot hne (e := encode "log") (by decide) (by decide)
  obtain ⟨cs, hcs, rfl⟩ := Option.map_eq_some_iff.mp hstem
  rw [hsplit.2] at hcs
  rw [logFileName, Utf8.encode_of_fromUtf8 hcs]
  rfl

-- The name under which a directory entry is listed.
def listedName (e : DirEntry) : Option String :=
  if IsLogName e.name ∧ e.fileType = some .file then stemName e.name else none

theorem collectNames_eq {l : List (Option DirEntry)} {names : List String}
    (h : collectNames l = some names) : names = (l.filterMap id).filterMap listedName := by
  induction l generalizing names with
  | nil =>
    cases h
    rfl
  | cons o rest ih =>
    cases o with
    | none => cases h
    | some e =>
      simp only [collectNames] at h
      have hcons : (some e :: rest).filterMap id = e :: rest.filterMap id := rfl
      rw [hcons, List.filterMap_cons]
      by_cases hlog : IsLogName e.name
      · rw [if_neg (not_not.mpr hlog)] at h
        cases htype : e.fileType with
        | none =>
          rw [htype] at h
          cases h
        | some t =>
          rw [htype] at h
          cases t with
          | file =>
            obtain ⟨names', hrest, rfl⟩ := Option.map_eq_some_iff.mp h
            rw [listedName, if_pos ⟨hlog, htype⟩, ih hrest]
            cases stemName e.name <;> rfl
          | dir | other =>
            rw [listedName, if_neg (by rw [htype]; exact fun e => by cases e.2)]
            exact ih h
      · rw [if_pos hlog] at h
        rw [listedName, if_neg fun hn => hlog hn.1]
        exact ih h

-- The directory is read to its end and no entry's type is refused.
def Readable (l : List (Option DirEntry)) : Prop :=
  ∀ o ∈ l, ∃ e, o = some e ∧ e.fileType.isSome

theorem collectNames_isSome {l : List (Option DirEntry)} (h : Readable l) :
    (collectNames l).isSome := by
  induction l with
  | nil => rfl
  | cons o rest ih =>
    obtain ⟨e, rfl, htype⟩ := h o List.mem_cons_self
    obtain ⟨t, ht⟩ := Option.isSome_iff_exists.mp htype
    have hrest := ih fun o ho => h o (List.mem_cons_of_mem _ ho)
    simp only [collectNames, ht]
    split
    · exact hrest
    · cases t with
      | file => simpa using hrest
      | dir | other => exact hrest

theorem listedName_some {e : DirEntry} {name : String} (h : listedName e = some name) :
    e.name = logFileName name := by
  simp only [listedName] at h
  split at h
  · next hn => exact eq_logFileName hn.1 h
  · cases h

theorem listedName_logFile {e : DirEntry} {name : String} (h : ValidProcess name)
    (hname : e.name = logFileName name) (htype : e.fileType = some .file) :
    listedName e = some name := by
  rw [listedName, hname, if_pos ⟨isLogName_logFileName h, htype⟩, stemName_logFileName h]

theorem discoverLogNames_count {l : List (Option DirEntry)} {names : List String} {e : DirEntry}
    {name : String} (hl : discoverLogNames (.entries l) = some names)
    (hn : ((l.filterMap id).map DirEntry.name).Nodup) (he : some e ∈ l) (h : ValidProcess name)
    (hname : e.name = logFileName name) (htype : e.fileType = some .file) :
    names.count name = 1 := by
  obtain ⟨collected, hcollected, rfl⟩ := Option.map_eq_some_iff.mp hl
  rw [(List.mergeSort_perm _ _).count_eq, collectNames_eq hcollected, List.count_filterMap]
  refine Nat.le_antisymm ?_ ?_
  · calc ((l.filterMap id).countP fun e => listedName e == some name)
        ≤ (l.filterMap id).countP fun e => e.name == logFileName name := by
          refine List.countP_mono_left fun e' _ hlisted => ?_
          exact beq_iff_eq.mpr (listedName_some (beq_iff_eq.mp hlisted))
      _ = ((l.filterMap id).map DirEntry.name).count (logFileName name) := by
          rw [List.count, List.countP_map]
          rfl
      _ ≤ 1 := List.nodup_iff_count_le_one.mp hn _
  · refine List.countP_pos_iff.mpr ⟨e, List.mem_filterMap.mpr ⟨_, he, rfl⟩, ?_⟩
    exact beq_iff_eq.mpr (listedName_logFile h hname htype)

theorem checkNames_ok {names : List String} (h : ∀ name ∈ names, ValidProcess name) :
    checkNames names = .ok () := by
  induction names with
  | nil => rfl
  | cons name names ih =>
    have hv : validateProcessName name = .ok () := h name List.mem_cons_self
    rw [checkNames, hv]
    exact ih fun n hn => h n (List.mem_cons_of_mem _ hn)

structure Sourced (project : String) (acc : List ProcessKey × List String) : Prop where
  inProject : ∀ k ∈ acc.1, k.project = project
  seen : ∀ name ∈ acc.2, ⟨project, name⟩ ∈ acc.1

theorem Sourced.add {project : String} {acc : List ProcessKey × List String}
    (h : Sourced project acc) (name : String) : Sourced project (addSource project acc name) := by
  rw [addSource]
  split
  · refine ⟨fun k hk => ?_, fun n hn => ?_⟩
    · rcases List.mem_append.mp hk with hk | hk
      · exact h.inProject k hk
      · rw [List.mem_singleton.mp hk]
    · rcases List.mem_cons.mp hn with rfl | hn
      · exact List.mem_append_right _ (List.mem_singleton_self _)
      · exact List.mem_append_left _ (h.seen n hn)
  · exact h

theorem Sourced.addAll {project : String} {acc : List ProcessKey × List String}
    (h : Sourced project acc) (names : List String) :
    Sourced project (names.foldl (addSource project) acc) := by
  induction names generalizing acc with
  | nil => exact h
  | cons name names ih => exact ih (h.add name)

theorem seen_addSource {project name : String} {acc : List ProcessKey × List String} (n : String)
    (h : name ∈ acc.2 ∨ name = n ∧ ValidProcess name) : name ∈ (addSource project acc n).2 := by
  rw [addSource]
  split
  · rcases h with h | ⟨rfl, -⟩
    · exact List.mem_cons_of_mem _ h
    · exact List.mem_cons_self
  · next hn =>
    rcases h with h | ⟨rfl, hv⟩
    · exact h
    · exact by_contra fun hnot => hn ⟨hv, hnot⟩

theorem seen_addAll {project name : String} {acc : List ProcessKey × List String}
    {names : List String} (h : name ∈ acc.2 ∨ name ∈ names ∧ ValidProcess name) :
    name ∈ (names.foldl (addSource project) acc).2 := by
  induction names generalizing acc with
  | nil => exact h.resolve_right fun h => by cases h.1
  | cons n names ih =>
    refine ih ?_
    rcases h with h | ⟨hmem, hv⟩
    · exact Or.inl (seen_addSource n (Or.inl h))
    · rcases List.mem_cons.mp hmem with rfl | hmem
      · exact Or.inl (seen_addSource name (Or.inr ⟨rfl, hv⟩))
      · exact Or.inr ⟨hmem, hv⟩

theorem resolveLogSources_key {k : ProcessKey} (hp : ValidProject k.project)
    (hn : ValidProcess k.name) {names requested : List String} {registered : List ProcessKey}
    (hlisted : k.name ∈ names) (hregistered : ∀ r ∈ registered, r.project = k.project)
    (hrequested : ∀ q ∈ requested, ValidProcess q)
    (hasked : requested = [] ∨ k.name ∈ requested) :
    ∃ sources, resolveLogSources k.project registered requested names = .ok sources ∧
      k ∈ sources ∧ ∀ s ∈ sources, s.name = k.name → s = k := by
  have hproject : validateProjectName k.project = .ok () := hp
  have hstart : Sourced k.project (registered, registered.map ProcessKey.name) := by
    refine ⟨hregistered, fun n hn => ?_⟩
    obtain ⟨r, hr, rfl⟩ := List.mem_map.mp hn
    rw [← hregistered r hr]
    exact hr
  simp only [resolveLogSources, hproject, checkNames_ok hrequested]
  refine ⟨_, rfl, ?_, fun s hs hname => ?_⟩
  · refine (hstart.addAll _).seen k.name (seen_addAll (Or.inr ⟨?_, hn⟩))
    rcases hasked with rfl | hmem
    · exact hlisted
    · rw [if_neg fun e => List.ne_nil_of_mem hmem (List.isEmpty_iff.mp e)]
      exact List.mem_filter.mpr ⟨hmem, decide_eq_true hlisted⟩
  · have hscoped := (hstart.addAll _).inProject s hs
    cases s
    cases k
    cases hscoped
    cases hname
    rfl

-- The directory listing of a project, with the file of one key in it.
structure Holds (logDir : UnixPath) (k : ProcessKey) (l : List (Option DirEntry)) (e : DirEntry) :
    Prop where
  distinct : ((l.filterMap id).map DirEntry.name).Nodup
  listed : some e ∈ l
  path : (logDir.join (encode k.project)).child e.name = getLogFilePathForKey logDir k
  isFile : e.fileType = some .file

structure Rediscovered (k : ProcessKey) (l : List (Option DirEntry)) (names : List String) :
    Prop where
  count : names.count k.name = 1
  resolved : ∀ registered requested, (∀ r ∈ registered, r.project = k.project) →
    (∀ q ∈ requested, ValidProcess q) → requested = [] ∨ k.name ∈ requested →
      ∃ sources, resolveLogSources k.project registered requested names = .ok sources ∧
        k ∈ sources ∧ ∀ s ∈ sources, s.name = k.name → s = k

theorem log_path_law (d : LogDir) {k : ProcessKey} (hp : ValidProject k.project)
    (hn : ValidProcess k.name) :
    grepLogPath d.path k.project k.name = .ok (getLogFilePathForKey d.path k) ∧
      (∀ p : ProxyInfo, p.key = k →
        encode (processInfoLogFile p d.path) = (getLogFilePathForKey d.path k).toBytes) ∧
      (∃ dir file, Plain dir ∧ Plain file ∧
        getLogFilePathForKey d.path k = (d.path.child dir).child file) ∧
      (∀ k' : ProcessKey, ValidProject k'.project → ValidProcess k'.name →
        getLogFilePathForKey d.path k' = getLogFilePathForKey d.path k → k' = k) ∧
      ∀ l e, Holds d.path k l e → stemName e.name = some k.name ∧
        (Readable l → (discoverLogNames (.entries l)).isSome) ∧
          ∀ names, discoverLogNames (.entries l) = some names → Rediscovered k l names := by
  have hpath := getLogFilePathForKey_eq hp hn d.path
  have hproject : validateProjectName k.project = .ok () := hp
  have hname : validateProcessName k.name = .ok () := hn
  refine ⟨?_, ?_, ?_, ?_, ?_⟩
  · simp only [grepLogPath, hproject, hname]
  · rintro p rfl
    have hunicode : (getLogFilePathForKey d.path p.key).Unicode := by
      rw [hpath, ← encode_logFileName]
      exact (d.path_unicode.child _).child _
    exact hunicode.encode_lossy
  · exact ⟨_, _, plain_of_valid hp, logFileName_plain hn, hpath⟩
  · exact fun k' hp' hn' h => getLogFilePathForKey_inj hp hn hp' hn' h
  · intro l e h
    have hfile : e.name = logFileName k.name := by
      have he := h.path
      rw [hpath, UnixPath.join_plain (plain_of_valid hp)] at he
      exact (child_child_inj he).2
    refine ⟨by rw [hfile]; exact stemName_logFileName hn, fun hr => ?_, fun names hnames => ?_⟩
    · rw [discoverLogNames, Option.isSome_map]
      exact collectNames_isSome hr
    have hcount := discoverLogNames_count hnames h.distinct h.listed hn hfile h.isFile
    have hlisted : k.name ∈ names := List.count_pos_iff.mp (by omega)
    exact ⟨hcount, fun registered requested hr hq ha => resolveLogSources_key hp hn hlisted hr hq ha⟩

def runtimeLogDir : LogDir := ⟨true, ["run", "user", "1000", "mcproc", "log"]⟩

def dottedKey : ProcessKey := ⟨"app", ".web.log"⟩

def dottedProxy : ProxyInfo :=
  ProxyInfo.new { Manager.webRequest with name := ".web.log" } "a" 7

def dottedEntry : DirEntry := ⟨encode ".web.log.log", some .file, by decide⟩

def dottedListing : List (Option DirEntry) :=
  [some CleanProject.webEntry, some dottedEntry]

theorem log_path_law_dotted :
    grepLogPath runtimeLogDir.path "app" ".web.log" =
        .ok (getLogFilePathForKey runtimeLogDir.path dottedKey) ∧
      encode (processInfoLogFile dottedProxy runtimeLogDir.path) =
        (getLogFilePathForKey runtimeLogDir.path dottedKey).toBytes ∧
      (∃ dir file, Plain dir ∧ Plain file ∧
        getLogFilePathForKey runtimeLogDir.path dottedKey =
          (runtimeLogDir.path.child dir).child file) ∧
      getLogFilePathForKey runtimeLogDir.path ⟨"app", "web"⟩ ≠
        getLogFilePathForKey runtimeLogDir.path dottedKey ∧
      ∃ names, discoverLogNames (.entries dottedListing) = some names ∧
        Rediscovered dottedKey dottedListing names := by
  obtain ⟨hgrep, hinfo, hplain, hinj, hfound⟩ :=
    log_path_law runtimeLogDir (k := dottedKey) (by decide) (by decide)
  have hholds : Holds runtimeLogDir.path dottedKey dottedListing dottedEntry :=
    ⟨by decide, by decide, by decide, rfl⟩
  have hreadable : Readable dottedListing := by
    simp [Readable, dottedListing, dottedEntry, CleanProject.webEntry]
  obtain ⟨-, hread, hlist⟩ := hfound dottedListing dottedEntry hholds
  obtain ⟨names, hnames⟩ := Option.isSome_iff_exists.mp (hread hreadable)
  refine ⟨hgrep, hinfo dottedProxy rfl, hplain, fun hsame => ?_, names, hnames, hlist names hnames⟩
  exact absurd (hinj ⟨"app", "web"⟩ (by decide) (by decide) hsame) (by decide)

end LogSources
