import ComHeaders.Proofs.Command.Generation
import ComHeaders.Proofs.Command.Listing

/-!
# How the command ends

The command ends with status zero if it did what it was asked for, and with status one if it did
not.  Some failures leave it instead.  This file says which these are, for every command line that
is understood, every environment and all files.

## 1.  The stages of a run

A run reads its configuration, starts its log, and then turns to the metadata.  `Reaches` says what
it has at this point.

## 2.  Failures and success

`Leaves` are the failures that leave the command, stage by stage: the log cannot be started, a
listing fails otherwise than by a wrong format, or the directory for the headers cannot be used.
`Done` says that a run did what it was asked for.

## 3.  The end

`run_exits` is the result, for every host.  A file that stands where the log belongs shows that the
status is not always reached.
-/

namespace ComHeaders

open Work Workspace

namespace Command

variable {host : Host} {a : Arguments} {env : Environment} {files : FileTree} {stamp : String}

/-! ## 1.  The stages of a run -/

/-- What a run has when it turns to the metadata. -/
structure Stage where
  configuration : Configuration
  settings : Settings
  /-- The files, with the log. -/
  files : FileTree

namespace Stage

/-- What is read of the metadata file. -/
def found (s : Stage) : Except Fault Contents := s.files.read s.configuration.metadataFile

/-- Where the log is. -/
def log (s : Stage) (stamp : String) : Path :=
  (logPath s.configuration.logDirectory stamp).absolute s.files.here

/-- The metadata are not what the run itself writes into its log, and none of their strings holds
half a character. -/
structure Ordinary (s : Stage) (stamp : String) : Prop where
  apart : ∀ place, s.files.locate s.configuration.metadataFile = .ok place →
    s.files.locate (s.log stamp) ≠ .ok place
  whole : ∀ contents, s.found = .ok contents → contents.IsWhole

end Stage

/-- A run reads its configuration and starts its log. -/
structure Reaches (host : Host) (a : Arguments) (env : Environment) (files : FileTree)
    (stamp : String) (s : Stage) : Prop where
  configured : configure host a env files = .ok (s.configuration, s.settings)
  logged : files.withLog s.configuration.logDirectory stamp = .ok s.files

/-- A run comes to one stage only. -/
theorem Reaches.unique {s s' : Stage} (h : Reaches host a env files stamp s)
    (h' : Reaches host a env files stamp s') : s = s' := by
  obtain ⟨c, settings, logged⟩ := s
  obtain ⟨c', settings', logged'⟩ := s'
  obtain ⟨hc, hlogged⟩ := h
  obtain ⟨hc', hlogged'⟩ := h'
  cases hc.symm.trans hc'
  cases hlogged.symm.trans hlogged'
  rfl

/-- A configuration stands only if its metadata file is there. -/
theorem exists_file_of_configure {c : Configuration} {settings : Settings}
    (h : configure host a env files = .ok (c, settings)) :
    ∃ place contents, files.locate c.metadataFile = .ok place ∧
      files.node? place = some (.file contents) := by
  rw [configure] at h
  obtain ⟨env', -, h⟩ := Result.bind_eq_ok.1 h
  obtain ⟨_, hvalid, h⟩ := Result.bind_eq_ok.1 h
  cases h
  rw [Configuration.validate] at hvalid
  obtain ⟨n, hprobe, hvalid⟩ := Result.bind_eq_ok.1 hvalid
  rcases n with _ | _ | contents
  · cases hvalid
  · cases hvalid
  · rw [FileTree.probe] at hprobe
    split at hprobe
    · rename_i place hplace
      exact ⟨place, contents, hplace, Except.ok.inj hprobe⟩
    · cases hprobe
    · cases hprobe
    · cases hprobe

/-- The metadata file is there beside the log. -/
theorem Reaches.fileApart {s : Stage} (hs : Reaches host a env files stamp s)
    (hordinary : s.Ordinary stamp) {w : Workspace} (hfiles : w.files = s.files)
    (hlog : w.sink.logFile = some (logPath s.configuration.logDirectory stamp)) :
    w.FileApart s.configuration.metadataFile := by
  obtain ⟨place, contents, hplace, hnode⟩ := exists_file_of_configure hs.configured
  obtain ⟨hgrows, logPlace, hlogPlace⟩ := FileTree.withLog_ok hs.logged
  rw [← hfiles] at hgrows hlogPlace
  refine ⟨⟨place, contents, hgrows.locate hplace, hgrows.node? place _ hnode⟩,
    ⟨logPlace, logPlace?_eq_some.2 ⟨_, hlog, hlogPlace⟩⟩, ?_⟩
  rintro ⟨other, hother, hotherLog⟩
  obtain ⟨_, hlogFile, hotherPlace⟩ := logPlace?_eq_some.1 hotherLog
  cases hlog.symm.trans hlogFile
  rw [hfiles] at hother hotherPlace
  exact hordinary.apart other hother hotherPlace

/-- The namespaces that headers are asked for. -/
def requested (a : Arguments) : List String := (a.namespaces.getD []).map (·.getD "[]")

theorem mem_builtIn_of_ofNamespace {n : String} {p : Profile}
    (h : Profile.ofNamespace n = .ok p) : p ∈ Profile.builtIn := by
  rw [Profile.ofNamespace] at h
  split at h
  · rename_i found hfind
    cases h
    exact List.mem_of_find?_eq_some hfind
  · cases h

/-- Only profiles that are built in are selected. -/
theorem mem_builtIn_of_select {namespaces : List String} {profiles : List Profile}
    (h : Profile.select namespaces = .ok profiles) : ∀ p ∈ profiles, p ∈ Profile.builtIn := by
  rw [Profile.select] at h
  split at h
  · cases h
    exact fun p hp => hp
  · rename_i hsome
    have hall := Result.mapM_eq_ok.1 h
    clear h hsome
    induction hall with
    | nil => nofun
    | cons hp _ ih => exact List.forall_mem_cons.2 ⟨mem_builtIn_of_ofNamespace hp, ih⟩

/-! ## 2.  Failures and success -/

/-- The failures that leave the command. -/
inductive Leaves (host : Host) (a : Arguments) (env : Environment) (files : FileTree)
    (stamp : String) : Failure → Prop
  /-- The log cannot be started. -/
  | log {c : Configuration} {settings : Settings} {f : Fault}
    (hc : configure host a env files = .ok (c, settings))
    (h : files.withLog c.logDirectory stamp = .error f) : Leaves host a env files stamp (.fault f)
  /-- The namespaces cannot be listed, and this is not reported as a wrong format. -/
  | listing {s : Stage} {e : Failure} (hs : Reaches host a env files stamp s)
    (ha : a.listsNamespaces = true)
    (h : Unlistable host s.configuration.metadataFile s.found e) : Leaves host a env files stamp e
  /-- The directory for the headers cannot be used. -/
  | directory {s : Stage} {profiles : List Profile} {e : Failure}
    (hs : Reaches host a env files stamp s) (ha : a.listsNamespaces = false)
    (hselect : Profile.select (requested a) = .ok profiles)
    (h : Unusable s.configuration s.files e) : Leaves host a env files stamp e

/-- A run has done what it was asked for: the namespaces are listed, or all headers are written. -/
inductive Done (host : Host) (a : Arguments) (env : Environment) (files : FileTree)
    (stamp : String) (w : Workspace) : Prop
  | listed {s : Stage} {r : Repository} {ns : List Value} (hs : Reaches host a env files stamp s)
    (ha : a.listsNamespaces = true)
    (hr : Repository.loadedFrom s.configuration.metadataFile s.found = .ok r)
    (hns : r.namespaces = .ok ns) (h : w.texts = ns.map Value.text) :
    Done host a env files stamp w
  | written {s : Stage} {profiles : List Profile} (hs : Reaches host a env files stamp s)
    (ha : a.listsNamespaces = false) (hselect : Profile.select (requested a) = .ok profiles)
    (h : Written s.configuration s.settings s.found profiles w) : Done host a env files stamp w

section

variable {s : Stage} (hs : Reaches host a env files stamp s)
include hs

theorem not_log {c : Configuration} {settings : Settings} {f : Fault}
    (hc : configure host a env files = .ok (c, settings)) :
    files.withLog c.logDirectory stamp ≠ .error f := by
  intro h
  cases hc.symm.trans hs.configured
  cases h.symm.trans hs.logged

theorem leaves_listing_iff (ha : a.listsNamespaces = true) {e : Failure} :
    Leaves host a env files stamp e ↔
      Unlistable host s.configuration.metadataFile s.found e := by
  constructor
  · intro h
    cases h with
    | log hc h => exact absurd h (not_log hs hc)
    | listing hs' _ h =>
      cases hs.unique hs'
      exact h
    | directory _ ha' => cases ha.symm.trans ha'
  · exact .listing hs ha

theorem leaves_generating_iff (ha : a.listsNamespaces = false) {e : Failure} :
    Leaves host a env files stamp e ↔ ∃ profiles,
      Profile.select (requested a) = .ok profiles ∧ Unusable s.configuration s.files e := by
  constructor
  · intro h
    cases h with
    | log hc h => exact absurd h (not_log hs hc)
    | listing _ ha' => cases ha.symm.trans ha'
    | directory hs' _ hselect h =>
      cases hs.unique hs'
      exact ⟨_, hselect, h⟩
  · rintro ⟨profiles, hselect, h⟩
    exact .directory hs ha hselect h

theorem done_listing_iff (ha : a.listsNamespaces = true) {w : Workspace} :
    Done host a env files stamp w ↔
      ∃ r ns, Repository.loadedFrom s.configuration.metadataFile s.found = .ok r ∧
        r.namespaces = .ok ns ∧ w.texts = ns.map Value.text := by
  constructor
  · intro h
    cases h with
    | listed hs' _ hr hns h =>
      cases hs.unique hs'
      exact ⟨_, _, hr, hns, h⟩
    | written _ ha' => cases ha.symm.trans ha'
  · rintro ⟨r, ns, hr, hns, h⟩
    exact .listed hs ha hr hns h

theorem done_generating_iff (ha : a.listsNamespaces = false) {w : Workspace} :
    Done host a env files stamp w ↔ ∃ profiles, Profile.select (requested a) = .ok profiles ∧
      Written s.configuration s.settings s.found profiles w := by
  constructor
  · intro h
    cases h with
    | listed _ ha' => cases ha.symm.trans ha'
    | written hs' _ hselect h =>
      cases hs.unique hs'
      exact ⟨_, hselect, h⟩
  · rintro ⟨profiles, hselect, h⟩
    exact .written hs ha hselect h

end

/-! ## 3.  The end -/

/-- What comes of a run: a failure exactly if it leaves the command, and else status zero or one,
according to whether the run has done what it was asked for. -/
def Exits (host : Host) (a : Arguments) (env : Environment) (files : FileTree) (stamp : String)
    (out : Except Failure Ending × Workspace) : Prop :=
  (∀ e, out.1 = .error e ↔ Leaves host a env files stamp e) ∧
  ∀ ending, out.1 = .ok ending →
    ending.status = 0 ∧ Done host a env files stamp out.2 ∨
      ending.status = 1 ∧ ¬ Done host a env files stamp out.2

/-- A run does what it is asked for, once it has come to the metadata. -/
def asked (host : Host) (a : Arguments) (c : Configuration) (settings : Settings) : Work Ending :=
  if a.listsNamespaces then listNamespaces host c settings
  else match Profile.select (requested a) with
    | .ok profiles => generate c settings profiles
    | .error f => do
      note (.plain .main .error (f.text?.getD ""))
      return .failed

theorem follow_perform (host : Host) (a : Arguments) (c : Configuration) (settings : Settings)
    (w : Workspace) : (follow host a c settings).perform w = (asked host a c settings).perform
      ((w.accept (.plain .main .debug s!"Metadata file: {c.metadataFile.text}")).accept
        (.plain .main .debug s!"Output directory: {c.outputText}")) := by
  rw [follow, perform_bind, perform_note]
  simp only
  rw [perform_bind, perform_note]
  rfl

/-- A workspace in which a run turns to the metadata: its files are those of the stage, with a log
that may have lines, and nothing is shown of the result yet. -/
structure Turns (s : Stage) (stamp : String) (v : Workspace) : Prop where
  shape : s.files.SameShape v.files
  read : v.files.read s.configuration.metadataFile = s.found
  apart : v.FileApart s.configuration.metadataFile
  log : v.sink.logFile = some (logPath s.configuration.logDirectory stamp)
  texts : v.texts = []

/-- A run that has started its log has only written lines to it since. -/
theorem Reaches.turns {s : Stage} (hs : Reaches host a env files stamp s)
    (hordinary : s.Ordinary stamp) {w : Workspace} (hfiles : w.files = s.files)
    (hlog : w.sink.logFile = some (logPath s.configuration.logDirectory stamp))
    (htexts : w.texts = []) (j : Journal) (e e' : Entry) :
    Turns s stamp (((w.recording j id).accept e).accept e') := by
  have hlogs := ((OnlyLogs.recording w j id).trans (.accept _ e)).trans (.accept _ e')
  have hapart := hs.fileApart hordinary hfiles hlog
  refine ⟨hfiles ▸ hlogs.sameShape, ?_, hapart.of_onlyLogs hlogs, hlogs.sink ▸ hlog, ?_⟩
  · rw [hlogs.read hapart.apart, hfiles, Stage.found]
  · rw [texts_accept, texts_accept, texts_recording, htexts]

section

variable {s : Stage} {v : Workspace} (hs : Reaches host a env files stamp s)
variable (hordinary : s.Ordinary stamp) (hv : Turns s stamp v)
include hs hv

include hordinary in
theorem listing_exits (ha : a.listsNamespaces = true) : Exits host a env files stamp
    ((listNamespaces host s.configuration s.settings).perform v) := by
  obtain ⟨w, hw, htexts⟩ := listNamespaces_perform host s.settings hv.apart.apart
  rw [hv.read] at hw htexts
  simp only [hv.texts, List.nil_append] at htexts
  rw [hw]
  refine ⟨fun e => (listed_eq_error hordinary.whole).trans (leaves_listing_iff hs ha).symm,
    fun ending hending => ?_⟩
  rw [done_listing_iff hs ha]
  simp only at hending ⊢
  rw [listed] at hending
  split at hending
  · rename_i e he
    split at hending
    · cases hending
      refine .inr ⟨rfl, ?_⟩
      rintro ⟨r, _, hr, -⟩
      cases he.symm.trans hr
    · cases hending
  · rename_i r hr
    split at hending
    · cases hending
    · rename_i ns hns
      split at hending
      · rename_i hall
        cases hending
        exact .inl ⟨rfl, r, ns, hr, hns, htexts r ns hr hns (List.all_eq_true.1 hall)⟩
      · cases hending

theorem generating_exits (ha : a.listsNamespaces = false) {profiles : List Profile}
    (hselect : Profile.select (requested a) = .ok profiles) : Exits host a env files stamp
      ((generate s.configuration s.settings profiles).perform v) := by
  rcases Unusable.exists_or_usable s.configuration s.files with ⟨e, he⟩ | ⟨hno, d, hd, hmade⟩
  · obtain ⟨w, hw⟩ := generate_of_unusable s.settings profiles (he.of_sameShape hv.shape)
    rw [hw]
    refine ⟨fun e' => ?_, fun ending hending => ?_⟩
    · rw [leaves_generating_iff hs ha]
      constructor
      · rintro ⟨⟩
        exact ⟨profiles, hselect, he⟩
      · rintro ⟨_, -, he'⟩
        rw [he.unique he']
    · cases hending
  · obtain ⟨ending, w, hw, hending⟩ := generate_of_usable s.settings hv.apart hv.log
      (mem_builtIn_of_select hselect) hd ((hv.shape.makeDirectories d).1.symm.trans hmade)
    rw [hv.read] at hending
    rw [hw]
    refine ⟨fun e => iff_of_false (fun h => by cases h) ?_, ?_⟩
    · rw [leaves_generating_iff hs ha]
      rintro ⟨_, -, he⟩
      exact hno e he
    · rintro _ ⟨⟩
      rw [done_generating_iff hs ha]
      rcases hending with ⟨rfl, h⟩ | ⟨rfl, h⟩
      · exact .inl ⟨rfl, profiles, hselect, h⟩
      · refine .inr ⟨rfl, ?_⟩
        rintro ⟨_, hselect', h'⟩
        cases hselect.symm.trans hselect'
        exact h h'

include hordinary in
/-- **What is asked for.** -/
theorem asked_exits : Exits host a env files stamp
    ((asked host a s.configuration s.settings).perform v) := by
  rw [asked]
  split
  · rename_i ha
    exact listing_exits hs hordinary hv ha
  · rename_i hnot
    have ha : a.listsNamespaces = false := by simpa using hnot
    split
    · rename_i profiles hselect
      exact generating_exits hs hv ha hselect
    · rename_i f hselect
      refine ⟨fun e => iff_of_false nofun ?_, ?_⟩
      · rw [leaves_generating_iff hs ha]
        rintro ⟨_, hselect', -⟩
        cases hselect.symm.trans hselect'
      · rintro _ ⟨⟩
        rw [done_generating_iff hs ha]
        refine .inr ⟨rfl, ?_⟩
        rintro ⟨_, hselect', -⟩
        cases hselect.symm.trans hselect'

end

theorem follow_exits {s : Stage} (hs : Reaches host a env files stamp s)
    (hordinary : s.Ordinary stamp) {w : Workspace} (hfiles : w.files = s.files)
    (hlog : w.sink.logFile = some (logPath s.configuration.logDirectory stamp))
    (htexts : w.texts = []) (j : Journal) : Exits host a env files stamp
      ((follow host a s.configuration s.settings).perform (w.recording j id)) := by
  rw [follow_perform]
  exact asked_exits hs hordinary (hs.turns hordinary hfiles hlog htexts j _ _)

theorem Leaves.exists_configured {e : Failure} (h : Leaves host a env files stamp e) :
    ∃ c settings, configure host a env files = .ok (c, settings) := by
  cases h with
  | log hc => exact ⟨_, _, hc⟩
  | listing hs => exact ⟨_, _, hs.configured⟩
  | directory hs => exact ⟨_, _, hs.configured⟩

theorem Done.exists_reaches {w : Workspace} (h : Done host a env files stamp w) :
    ∃ s, Reaches host a env files stamp s := by
  cases h with
  | listed hs => exact ⟨_, hs⟩
  | written hs => exact ⟨_, hs⟩

theorem badConfiguration_exits {f : Fault} (h : configure host a env files = .error f)
    (w : Workspace) : Exits host a env files stamp (.ok (.badConfiguration (.fault f)), w) := by
  refine ⟨fun e => iff_of_false nofun fun he => ?_, ?_⟩
  · obtain ⟨c, settings, hc⟩ := he.exists_configured
    cases h.symm.trans hc
  · rintro _ ⟨⟩
    refine .inr ⟨rfl, fun hdone => ?_⟩
    obtain ⟨s, hs⟩ := hdone.exists_reaches
    cases h.symm.trans hs.configured

theorem log_exits {c : Configuration} {settings : Settings} {f : Fault}
    (hc : configure host a env files = .ok (c, settings))
    (h : files.withLog c.logDirectory stamp = .error f) (w : Workspace) :
    Exits host a env files stamp (.error (.fault f), w) := by
  have hnot {s : Stage} : ¬ Reaches host a env files stamp s := fun hs => not_log hs hc h
  refine ⟨fun e => ?_, nofun⟩
  constructor
  · rintro ⟨⟩
    exact .log hc h
  · intro he
    cases he with
    | log hc' h' =>
      cases hc.symm.trans hc'
      cases h.symm.trans h'
      rfl
    | listing hs => exact absurd hs hnot
    | directory hs => exact absurd hs hnot

/-- Watching a run does not change what comes of it. -/
theorem watched_exits {x : Work Ending} {w : Workspace}
    (h : ∀ n, Exits host a env files stamp (x.perform (w.accept n))) :
    Exits host a env files stamp ((watched .main "main" x).perform w) := by
  obtain ⟨n, m, hperform⟩ := perform_watched .main "main" x w
  obtain ⟨hleaves, hends⟩ := h n
  rw [hperform]
  rcases hx : x.perform (w.accept n) with ⟨e | ending, v⟩
  · rw [hx] at hleaves
    exact ⟨hleaves, nofun⟩
  · rw [hx] at hleaves hends
    exact ⟨hleaves, hends⟩

/-- A run, once its command line is understood. -/
def started (host : Host) (a : Arguments) (env : Environment) (stamp : String) : Work Ending := do
  match configure host a env (← get).files with
  | .error f => return .badConfiguration (.fault f)
  | .ok (c, settings) =>
    startLogging (some c.logDirectory) c.isVerbose stamp
    follow host a c settings

theorem run_eq {words : List String} (ha : Arguments.ofStrings host.keepsDashes words = .ok a) :
    run host env stamp words = watched .main "main" (started host a env stamp) := by
  rw [run, ha]
  rfl

variable {line : Entry → String}

theorem started_of_log {c : Configuration} {settings : Settings} {f : Fault}
    (hc : configure host a env files = .ok (c, settings))
    (h : files.withLog c.logDirectory stamp = .error f) :
    ∃ v, (started host a env stamp).perform { files := files, lineOf := line } =
      (.error (.fault f), v) := by
  obtain ⟨v, hv⟩ := startLogging_error (w := { files := files, lineOf := line }) c.isVerbose rfl h
  refine ⟨v, ?_⟩
  rw [started, perform_bind, perform_get]
  simp only [hc]
  rw [perform_bind, hv]

/-- **What a run comes to.** -/
theorem started_exits
    (hordinary : ∀ s, Reaches host a env files stamp s → s.Ordinary stamp) :
    Exits host a env files stamp
      ((started host a env stamp).perform { files := files, lineOf := line }) := by
  rcases hc : configure host a env files with f | ⟨c, settings⟩
  · rw [started, perform_bind, perform_get]
    simp only [hc]
    exact badConfiguration_exits hc _
  rcases hlogged : files.withLog c.logDirectory stamp with f | logged
  · obtain ⟨v, hv⟩ := started_of_log hc hlogged
    rw [hv]
    exact log_exits hc hlogged v
  · obtain ⟨sink, j, hsink, hstart⟩ :=
      startLogging_ok (w := { files := files, lineOf := line }) c.isVerbose rfl hlogged
    have hs : Reaches host a env files stamp ⟨c, settings, logged⟩ := ⟨hc, hlogged⟩
    rw [started, perform_bind, perform_get]
    simp only [hc]
    rw [perform_bind, hstart]
    exact follow_exits hs (hordinary _ hs) rfl hsink rfl j

/-- The arguments that name a metadata file, and ask for nothing else or for its namespaces. -/
def onlyDump (listsNamespaces : Bool) : Arguments where
  metadataFile := some ⟨.here, ["meta.json"]⟩
  listsNamespaces := listsNamespaces

theorem ofStrings_onlyDump :
    Arguments.ofStrings false ["meta.json"] = .ok (onlyDump false) ∧
      Arguments.ofStrings false ["--list-namespaces", "meta.json"] = .ok (onlyDump true) := by
  decide +kernel

/-- The configuration that only names a metadata file. -/
def onlyDumpConfiguration : Configuration where
  metadataFile := ⟨.here, ["meta.json"]⟩
  outputDirectory := some ⟨.here, ["output"]⟩
  isVerbose := false
  logDirectory := ⟨.here, ["logs"]⟩

/-- A directory with a document, which may be refused to readers.  A file may stand where the log
belongs. -/
def withDocument (document : String) (isRefused isOccupied : Bool) : FileTree where
  nodes := [(["here"], .directory), (["here", "meta.json"], .file document.toUTF8)] ++
    if isOccupied then [(["here", "logs"], .file "x".toUTF8)] else []
  here := ["here"]
  refuses place access := isRefused && place == ["here", "meta.json"] && access == .read

section

variable (document : String) (isRefused isOccupied : Bool)

theorem locate_withDocument :
    (withDocument document isRefused isOccupied).locate ⟨.root, ["here", ".env"]⟩ =
      .ok ["here", ".env"] ∧
    (withDocument document isRefused isOccupied).locate ⟨.here, ["meta.json"]⟩ =
      .ok ["here", "meta.json"] ∧
    (withDocument document isRefused isOccupied).locate ⟨.here, ["logs"]⟩ =
      .ok ["here", "logs"] := by
  refine ⟨?_, ?_, ?_⟩
  all_goals
    refine (FileTree.locate_of_short (by decide +kernel) (by decide +kernel)).trans ?_
    cases isRefused <;> rfl

theorem node?_withDocument :
    (withDocument document isRefused isOccupied).node? ["here", ".env"] = none ∧
    (withDocument document isRefused isOccupied).node? ["here", "meta.json"] =
      some (.file document.toUTF8) ∧
    (withDocument document isRefused isOccupied).node? ["here", "logs"] =
      if isOccupied then some (.file "x".toUTF8) else none := by
  cases isOccupied <;> exact ⟨rfl, rfl, rfl⟩

theorem configure_withDocument (listsNamespaces : Bool) :
    configure .common (onlyDump listsNamespaces) [] (withDocument document isRefused isOccupied) =
      .ok (onlyDumpConfiguration, .ofEnvironment usualRoom []) := by
  obtain ⟨hvariables, hmetadata, -⟩ := locate_withDocument document isRefused isOccupied
  obtain ⟨hnone, hfile, -⟩ := node?_withDocument document isRefused isOccupied
  have henv : Environment.withFile Host.common.environmentFiles []
      (withDocument document isRefused isOccupied) (Configuration.environmentFile ["here"]) =
        .ok [] := by
    have hpath : Configuration.environmentFile ["here"] = ⟨.root, ["here", ".env"]⟩ := rfl
    rw [Environment.withFile, FileTree.probe, hpath, hvariables]
    simp only [hnone]
    rfl
  have hc : (Configuration.ofEnvironment []).withArguments (onlyDump listsNamespaces) =
      onlyDumpConfiguration := by
    cases listsNamespaces <;> decide +kernel
  have hvalid : onlyDumpConfiguration.validate (withDocument document isRefused isOccupied) =
      .ok () := by
    rw [Configuration.validate, onlyDumpConfiguration, FileTree.probe, hmetadata]
    simp only [hfile]
    rfl
  rw [configure]
  change (Environment.withFile Host.common.environmentFiles []
    (withDocument document isRefused isOccupied) (Configuration.environmentFile ["here"]) >>= _) = _
  rw [henv]
  change (Configuration.validate ((Configuration.ofEnvironment []).withArguments
    (onlyDump listsNamespaces)) (withDocument document isRefused isOccupied) >>= _) = _
  rw [hc, hvalid]
  rfl

/-- The files with the log of a run. -/
def loggedDocument : FileTree :=
  ((withDocument document isRefused false).set ["here", "logs"] .directory).set
    ["here", "logs", "winmd_c_headers_stamp.log"] (.file .empty)

/-- The stage of a run that can start its log. -/
def documentStage : Stage :=
  ⟨onlyDumpConfiguration, .ofEnvironment usualRoom [], loggedDocument document isRefused⟩

theorem log_documentStage : (documentStage document isRefused).log "stamp" =
    ⟨.root, ["here", "logs", "winmd_c_headers_stamp.log"]⟩ := by
  show (logPath ⟨.here, ["logs"]⟩ "stamp").absolute ["here"] = _
  decide +kernel

theorem locate_loggedDocument :
    (loggedDocument document isRefused).locate ⟨.here, ["meta.json"]⟩ =
      .ok ["here", "meta.json"] ∧
    (loggedDocument document isRefused).locate
        ⟨.root, ["here", "logs", "winmd_c_headers_stamp.log"]⟩ =
      .ok ["here", "logs", "winmd_c_headers_stamp.log"] := by
  refine ⟨?_, ?_⟩
  all_goals
    refine (FileTree.locate_of_short (by decide +kernel) (by decide +kernel)).trans ?_
    cases isRefused <;> rfl

theorem reaches_documentStage (listsNamespaces : Bool) :
    Reaches .common (onlyDump listsNamespaces) [] (withDocument document isRefused false) "stamp"
      (documentStage document isRefused) := by
  refine ⟨configure_withDocument _ _ _ _, ?_⟩
  obtain ⟨-, -, hlogs⟩ := locate_withDocument document isRefused false
  obtain ⟨-, -, hnone⟩ := node?_withDocument document isRefused false
  have hmade : (withDocument document isRefused false).makeDirectories ⟨.here, ["logs"]⟩ =
      (.ok (), (withDocument document isRefused false).set ["here", "logs"] .directory) :=
    FileTree.makeDirectories_of_nothing hlogs hnone (by cases isRefused <;> rfl)
  have hplace : ((withDocument document isRefused false).set ["here", "logs"] .directory).writePlace
      ⟨.root, ["here", "logs", "winmd_c_headers_stamp.log"]⟩ =
        .ok ["here", "logs", "winmd_c_headers_stamp.log"] := by
    refine FileTree.writePlace_ok.2 ⟨?_, nofun, by cases isRefused <;> rfl,
      fun _ => by cases isRefused <;> rfl⟩
    refine (FileTree.locate_of_short (by decide +kernel) (by decide +kernel)).trans ?_
    cases isRefused <;> rfl
  show (withDocument document isRefused false).withLog ⟨.here, ["logs"]⟩ "stamp" = _
  rw [FileTree.withLog, hmade]
  show FileTree.openEnd _ ((documentStage document isRefused).log "stamp") = _
  rw [log_documentStage, FileTree.openEnd, hplace]
  rfl

theorem found_documentStage : (documentStage document isRefused).found =
    if isRefused then .error (.permissionDenied "meta.json") else .ok document.toUTF8 := by
  obtain ⟨hmetadata, -⟩ := locate_loggedDocument document isRefused
  have hnode : (loggedDocument document isRefused).node? ["here", "meta.json"] =
      some (.file document.toUTF8) := rfl
  have htext : Path.text ⟨.here, ["meta.json"]⟩ = "meta.json" := by decide +kernel
  show (loggedDocument document isRefused).read ⟨.here, ["meta.json"]⟩ = _
  cases isRefused with
  | false => exact FileTree.read_ok hmetadata hnode rfl
  | true =>
    rw [FileTree.read, hmetadata]
    simp only [bind, Except.bind, hnode, htext]
    rfl

theorem ordinary_documentStage (h : isRefused = true ∨ Contents.IsWhole document.toUTF8) :
    (documentStage document isRefused).Ordinary "stamp" := by
  obtain ⟨hmetadata, hlog⟩ := locate_loggedDocument document isRefused
  refine ⟨fun place hplace hlogPlace => ?_, fun contents hfound => ?_⟩
  · rw [log_documentStage] at hlogPlace
    obtain rfl := Except.ok.inj (hmetadata.symm.trans hplace)
    exact absurd (Except.ok.inj (hlog.symm.trans hlogPlace)) (by decide)
  · rw [found_documentStage] at hfound
    rcases h with rfl | h
    · cases hfound
    · split at hfound
      · cases hfound
      · cases hfound
        exact h

end

/-- A document without definitions. -/
def noTypes : String := "\x7b\"types\": []\x7d"

theorem withLog_occupiedLog :
    (withDocument noTypes false true).withLog onlyDumpConfiguration.logDirectory "stamp" =
      .error (.fileExists "logs") := by
  obtain ⟨-, -, hlogs⟩ := locate_withDocument noTypes false true
  have htext : Path.text ⟨.here, ["logs"]⟩ = "logs" := by decide +kernel
  rw [onlyDumpConfiguration, FileTree.withLog, FileTree.makeDirectories_of_file hlogs rfl, htext]

theorem ordinary_occupiedLog (s : Stage) (hs : Reaches .common (onlyDump false) []
    (withDocument noTypes false true) "stamp" s) : s.Ordinary "stamp" :=
  absurd withLog_occupiedLog (not_log hs (configure_withDocument _ _ _ _))

theorem leaves_occupiedLog :
    Leaves .common (onlyDump false) [] (withDocument noTypes false true) "stamp"
      (.fault (.fileExists "logs")) :=
  .log (configure_withDocument _ _ _ _) withLog_occupiedLog

end Command

end ComHeaders
