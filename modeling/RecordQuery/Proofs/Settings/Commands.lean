/-
RecordQuery.Proofs.Settings.Commands — settings that are set one after the other.

A command that sets a setting loads all of them from the file, assigns one and
writes the file anew. So the file should be a map: every setting has the value
that was last assigned to it, or else the value that it had at first, and what is
refused changes nothing. Histories of such commands with their replies are
followed here, in which no file operation fails. The settings may be loaded from
any text at first, and the file may be missing.

The invariant is that the file can be loaded and that a missing file stays
missing when its directory is made. A command that is refused because its page
size cannot be written has made the directory before; where this brings a file
into sight, the settings are no map.

Main statements:
* `Settings.Keeps.of_encode` — what was written is loaded;
* `SetCommand.sets` — what one command does;
* `Settings.isMap_iff` — whole histories.
-/
import RecordQuery.Command.Run
import RecordQuery.Proofs.Files.Smooth
import RecordQuery.Proofs.Settings.Assignment
import RecordQuery.Proofs.Settings.Text
import RecordQuery.Proofs.Store.SaveLoad

namespace RecordQuery

/-! ## Loading and saving -/

namespace Settings

variable {settings next : Settings} {files mid s : Files} {path : Path}

/-- What is loaded where the text was read. -/
def readResult : Except FileFault String → Except SettingsError Settings
  | .ok text => decode text
  | .error fault => .error (.read fault)

/-- What is loaded from the files. -/
def loaded (path : Path) (files : Files) : Except SettingsError Settings :=
  if files.contains path then readResult ((files.read path).bind FileTask.decodeText) else .ok {}

theorem load_eq (path : Path) :
    load path = .check path fun found =>
      if found then .read path fun content => .done (readResult (content.bind FileTask.decodeText))
      else .done (.ok {}) := by
  rw [load]
  show FileTask.check path _ = _
  congr 1
  funext found
  cases found with
  | false => rfl
  | true =>
    show FileTask.read path _ = FileTask.read path _
    congr 1
    funext content
    cases hcontent : content.bind FileTask.decodeText with
    | error fault =>
      simp only [FileTask.bind, hcontent, readResult]
      rfl
    | ok text =>
      simp only [FileTask.bind, hcontent, readResult]
      rfl

theorem load_run (path : Path) (files : Files) :
    (load path).run files = (loaded path files, files) := by
  rw [load_eq, FileTask.run, loaded]
  cases files.contains path <;> rfl

theorem run_load_iff : (load path).run files = (.ok settings, files) ↔
    loaded path files = .ok settings := by
  rw [load_run, Prod.mk.injEq]
  exact and_iff_left rfl

theorem loaded_of_missing (h : files.contains path = false) : loaded path files = .ok {} := by
  rw [loaded, h]
  rfl

/-- A file with a text is loaded as what this text holds. -/
theorem loaded_of_find {text : String} (h : files.find path = .ok (.file text.toUTF8)) :
    loaded path files = decode text := by
  rw [loaded, Files.contains_of_find h, Files.read_of_find h, if_pos rfl]
  show readResult (FileTask.decodeText text.toUTF8) = _
  rw [Store.decodeText_toUTF8]
  rfl

/-- No file operation fails where settings are loaded. -/
theorem smooth?_load (h : loaded path files = .ok settings) :
    (load path).smooth? files = some (.ok settings, files) := by
  rw [load_eq, FileTask.smooth?]
  rw [loaded] at h
  cases hfound : files.contains path with
  | false =>
    rw [hfound] at h
    rw [← h]
    rfl
  | true =>
    rw [hfound, if_pos rfl] at h
    cases hread : files.read path with
    | error fault => rw [hread] at h; cases h
    | ok content =>
      rw [hread] at h
      simp [FileTask.smooth?, hread, h]

/-- What is changed smoothly before a file is written is that its directory is made. -/
theorem smooth?_directoryChanges {result : Except (FileChange × FileFault) Unit} :
    (FileTask.changeAll (directoryChanges path)).smooth? files = some (result, mid) ↔
      result = .ok () ∧ files.makeParent path = (.ok (), mid) := by
  unfold Files.makeParent directoryChanges
  cases path.parent? with
  | none =>
    show some (Except.ok (), files) = some (result, mid) ↔ _
    simp [eq_comm]
  | some parent => exact FileTask.smooth?_changeAll_singleton

/-- A file that is written smoothly is written. -/
theorem smooth?_write {content : ByteArray} {result : Except (FileChange × FileFault) Unit} :
    (FileTask.changeAll [.write path content]).smooth? files = some (result, s) ↔
      result = .ok () ∧ files.write path content = .ok s :=
  FileTask.smooth?_changeAll_singleton.trans (and_congr_right' FileChange.apply_write_eq_ok)

/-- Smooth work that saves settings makes the directory and writes the file, unless the settings have
no text. -/
theorem smooth?_save {result : Except SettingsError Unit} :
    (save settings path).smooth? files = some (result, s) ↔
      ∃ mid, files.makeParent path = (.ok (), mid) ∧
        ((∃ fault, SettingsDocument.encode ⟨currentVersion, settings⟩ = .error fault ∧
            result = .error fault ∧ s = mid) ∨
          ∃ text, SettingsDocument.encode ⟨currentVersion, settings⟩ = .ok text ∧
            result = .ok () ∧ mid.write path text.toUTF8 = .ok s) := by
  change ((FileTask.changeAll (directoryChanges path)).bind _).smooth? files = _ ↔ _
  rw [FileTask.smooth?_bind, Option.bind_eq_some_iff]
  cases hencode : SettingsDocument.encode ⟨currentVersion, settings⟩ with
  | error fault =>
    constructor
    · rintro ⟨⟨first, mid⟩, hdirectory, h⟩
      obtain ⟨rfl, hmake⟩ := smooth?_directoryChanges.1 hdirectory
      cases h
      exact ⟨mid, hmake, .inl ⟨fault, rfl, rfl, rfl⟩⟩
    · rintro ⟨mid, hmake, ⟨_, ⟨⟩, rfl, rfl⟩ | ⟨_, ⟨⟩, -⟩⟩
      exact ⟨(.ok (), s), smooth?_directoryChanges.2 ⟨rfl, hmake⟩, rfl⟩
  | ok text =>
    constructor
    · rintro ⟨⟨first, mid⟩, hdirectory, h⟩
      obtain ⟨rfl, hmake⟩ := smooth?_directoryChanges.1 hdirectory
      change ((FileTask.changeAll [.write path text.toUTF8]).bind _).smooth? mid = _ at h
      rw [FileTask.smooth?_bind] at h
      obtain ⟨⟨second, last⟩, hchange, h⟩ := Option.bind_eq_some_iff.1 h
      obtain ⟨rfl, hwrite⟩ := smooth?_write.1 hchange
      cases h
      exact ⟨mid, hmake, .inr ⟨text, rfl, rfl, hwrite⟩⟩
    · rintro ⟨mid, hmake, ⟨_, ⟨⟩, -⟩ | ⟨_, ⟨⟩, rfl, hwrite⟩⟩
      refine ⟨(.ok (), mid), smooth?_directoryChanges.2 ⟨rfl, hmake⟩, ?_⟩
      change ((FileTask.changeAll [.write path text.toUTF8]).bind _).smooth? mid = _
      rw [FileTask.smooth?_bind, smooth?_write.2 ⟨rfl, hwrite⟩]
      rfl

/-- Settings have no text if and only if their page size is too large. -/
theorem encode_eq_error_iff {version : UInt32} :
    (∃ fault, SettingsDocument.encode ⟨version, next⟩ = .error fault) ↔
      ∃ size, next.get? .pageSize = some (.count size) ∧ SettingsDocument.integerLimit < size := by
  unfold SettingsDocument.encode
  constructor
  · rintro ⟨fault, h⟩
    split at h
    · rename_i hlarge
      cases hsize : next.pageSize with
      | none => simp [hsize] at hlarge
      | some size =>
        refine ⟨size, ?_, by simpa [hsize] using hlarge⟩
        simp [Settings.get?, hsize]
    · cases h
  · rintro ⟨size, hget, hlarge⟩
    obtain ⟨found, hsize, heq⟩ := Option.map_eq_some_iff.1 hget
    cases heq
    exact ⟨.pageSizeTooLarge, if_pos (by simpa [hsize] using hlarge)⟩

/-! ## What the file keeps -/

/-- The settings are loaded from the file, or there is none and none comes into sight when its
directory is made. -/
structure Keeps (path : Path) (files : Files) (settings : Settings) : Prop where
  load : loaded path files = .ok settings
  present : files.contains path = true ∨ files.StaysMissing path

/-- To make the directory of the file does not change what it keeps. -/
theorem Keeps.makeParent (h : Keeps path files settings)
    (hmake : files.makeParent path = (.ok (), mid)) :
    Keeps path mid settings ∧ mid.held? path = files.held? path := by
  rcases h.present with hfound | hmissing
  · rw [Files.eq_of_makeParent hfound hmake]
    exact ⟨h, rfl⟩
  · have hstays := hmissing.makeParent hmake
    have hload := h.load
    rw [loaded_of_missing hmissing.missing] at hload
    refine ⟨⟨(loaded_of_missing hstays.missing).trans hload, .inr hstays⟩, ?_⟩
    rw [Files.held?_eq_none_iff.2 hstays.missing, Files.held?_eq_none_iff.2 hmissing.missing]

/-- What was written is loaded. -/
theorem Keeps.of_encode {version : UInt32} {text : String}
    (hencode : SettingsDocument.encode ⟨version, next⟩ = .ok text)
    (hwrite : mid.write path text.toUTF8 = .ok s) : Keeps path s next := by
  have hfind := Files.find_of_write hwrite
  refine ⟨?_, .inl (Files.contains_of_find hfind)⟩
  rw [loaded_of_find hfind, decode, SettingsDocument.parse?_of_encode hencode]

end Settings

/-! ## One command -/

/-- A command line that sets a setting in a file: it asks for this, and the environment names the
file. -/
structure SetCommand (path : Path) where
  environment : Environment
  arguments : List String
  shared : SharedOptions
  name : String
  text : String
  place : environment.settingsPath? = some path
  asks : Invocation.read environment arguments = .ok ⟨shared, .setSetting name text⟩

namespace SetCommand

variable {path : Path} {command : SetCommand path} {settings next : Settings}
  {files mid s : Files} {reply : Reply} {result : Option Reply}

/-- What the program does for the command. -/
def task (command : SetCommand path) : FileTask (Option Reply) :=
  runCommandLine command.environment command.arguments

/-- How the results of the command are shown under the settings. -/
def context (command : SetCommand path) (settings : Settings) : Context :=
  .of command.environment settings command.shared

/-- A result that is shown is no failure. -/
theorem exit_shown (context : Context) (json : Json) (text : String) :
    (context.shown json text).exit = 0 := by
  unfold Context.shown
  split
  · rfl
  split
  · rfl
  · rfl

/-- Where the settings can be loaded, one of them is set in the file. -/
theorem smooth?_task (h : Settings.loaded path files = .ok settings) :
    command.task.smooth? files =
      ((runSetSetting (command.context settings) settings path command.name command.text).smooth?
        files).map fun found => (some found.1, found.2) := by
  rw [task, runCommandLine, command.asks]
  simp only [command.place]
  change ((Settings.load path).bind _).smooth? files = _
  rw [FileTask.smooth?_bind, Settings.smooth?_load h, Option.bind_some]
  change ((runSetSetting (command.context settings) settings path command.name command.text).bind
    fun reply => .done (some reply)).smooth? files = _
  rw [FileTask.smooth?_bind, Option.map_eq_bind]
  rfl

/-- What the command says when its new settings were saved, or not; how it is shown is still a matter
of the old ones. -/
def savedReply (command : SetCommand path) (settings : Settings) :
    Except SettingsError Unit → Reply
  | .error fault => (command.context settings).failed (.settings fault)
  | .ok () => (command.context settings).shown
      (assignmentJson command.name command.text path)
      ("Set " ++ command.name ++ " = " ++ command.text ++ "\n")

/-- Where the name and the text stand for new settings, the command saves them and says so. -/
theorem smooth?_of_assign (hload : Settings.loaded path files = .ok settings)
    (hassign : settings.assignNamed command.name command.text = .ok next) :
    command.task.smooth? files = ((next.save path).smooth? files).map fun saved =>
      (some (command.savedReply settings saved.1), saved.2) := by
  rw [smooth?_task hload, runSetSetting, hassign]
  change (((next.save path).bind _).smooth? files).map _ = _
  rw [FileTask.smooth?_bind, Option.map_bind, Option.map_eq_bind]
  congr 1
  funext ⟨saved, last⟩
  cases saved <;> rfl

/-- All that one command can do: it is refused for its name or its text, or for its page size after
the directory was made, or it writes the file. -/
theorem smooth?_cases (hload : Settings.loaded path files = .ok settings)
    (h : command.task.smooth? files = some (result, s)) :
    ∃ reply, result = some reply ∧
      ((∃ fault, settings.assignNamed command.name command.text = .error fault ∧
          reply.exit = 5 ∧ s = files) ∨
        ∃ next mid, settings.assignNamed command.name command.text = .ok next ∧
          files.makeParent path = (.ok (), mid) ∧
            ((∃ fault, SettingsDocument.encode ⟨Settings.currentVersion, next⟩ = .error fault ∧
                reply.exit = 5 ∧ s = mid) ∨
              ∃ text, SettingsDocument.encode ⟨Settings.currentVersion, next⟩ = .ok text ∧
                reply.exit = 0 ∧ mid.write path text.toUTF8 = .ok s)) := by
  cases hassign : settings.assignNamed command.name command.text with
  | error fault =>
    rw [smooth?_task hload, runSetSetting, hassign] at h
    cases h
    exact ⟨_, rfl, .inl ⟨fault, rfl, rfl, rfl⟩⟩
  | ok next =>
    rw [smooth?_of_assign hload hassign] at h
    obtain ⟨⟨saved, last⟩, hsave, heq⟩ := Option.map_eq_some_iff.1 h
    cases heq
    refine ⟨_, rfl, .inr ⟨next, ?_⟩⟩
    obtain ⟨mid, hmake, ⟨fault, hencode, rfl, rfl⟩ | ⟨text, hencode, rfl, hwrite⟩⟩ :=
      Settings.smooth?_save.1 hsave
    · exact ⟨_, rfl, hmake, .inl ⟨fault, hencode, rfl, rfl⟩⟩
    · exact ⟨mid, rfl, hmake, .inr ⟨text, hencode, exit_shown _ _ _, hwrite⟩⟩

/-- Where the new settings have no text, the command has made the directory when it is refused. -/
theorem smooth?_of_encode_error {fault : SettingsError}
    (hload : Settings.loaded path files = .ok settings)
    (hassign : settings.assignNamed command.name command.text = .ok next)
    (hencode : SettingsDocument.encode ⟨Settings.currentVersion, next⟩ = .error fault)
    (hmake : files.makeParent path = (.ok (), mid)) :
    command.task.smooth? files =
      some (some (command.savedReply settings (.error fault)), mid) := by
  have hsave := Settings.smooth?_save.2 ⟨mid, hmake, .inl ⟨fault, hencode, rfl, rfl⟩⟩
  rw [smooth?_of_assign hload hassign, hsave]
  rfl

/-- Where they have one, the command writes it and says what it has set. -/
theorem smooth?_of_encode (command : SetCommand path) {text : String}
    (hload : Settings.loaded path files = .ok settings)
    (hassign : settings.assignNamed command.name command.text = .ok next)
    (hencode : SettingsDocument.encode ⟨Settings.currentVersion, next⟩ = .ok text)
    (hmake : files.makeParent path = (.ok (), mid)) (hwrite : mid.write path text.toUTF8 = .ok s) :
    command.task.smooth? files = some (some (command.savedReply settings (.ok ())), s) := by
  have hsave := Settings.smooth?_save.2 ⟨mid, hmake, .inr ⟨text, hencode, rfl, hwrite⟩⟩
  rw [smooth?_of_assign hload hassign, hsave]
  rfl

/-- What a command does to settings that were loaded: either it is refused, and the file is as it was,
or the setting that it names has the value that it gives, and the others are loaded as before. -/
structure Sets (command : SetCommand path) (files : Files) (settings : Settings) (reply : Reply)
    (s : Files) : Prop where
  refused : reply.exit ≠ 0 →
    s.held? path = files.held? path ∧ (Settings.load path).run s = (.ok settings, s)
  set : reply.exit = 0 → ∃ assignment next,
    Assignment.read? command.name command.text = some assignment ∧
      (Settings.load path).run s = (.ok next, s) ∧ next.get? = assignment.after settings.get?
  /-- There is no setting of this name, the text is no value of it, or the page size is too large. -/
  refused_iff : reply.exit ≠ 0 ↔
    Assignment.read? command.name command.text = none ∨
      ∃ assignment size, Assignment.read? command.name command.text = some assignment ∧
        assignment.after settings.get? .pageSize = some (.count size) ∧
          SettingsDocument.integerLimit < size

/-- It is all the same for what a command does why it was refused. -/
theorem Sets.of_refused (hexit : reply.exit = 5) (hheld : s.held? path = files.held? path)
    (hload : Settings.loaded path s = .ok settings)
    (hreason : Assignment.read? command.name command.text = none ∨
      ∃ assignment size, Assignment.read? command.name command.text = some assignment ∧
        assignment.after settings.get? .pageSize = some (.count size) ∧
          SettingsDocument.integerLimit < size) :
    command.Sets files settings reply s where
  refused _ := ⟨hheld, Settings.run_load_iff.2 hload⟩
  set hzero := by
    rw [hexit] at hzero
    cases hzero
  refused_iff := iff_of_true (by simp [hexit]) hreason

/-- One command is refused or sets what it names, and the file can be loaded afterwards. -/
theorem sets (hkeeps : Settings.Keeps path files settings)
    (h : command.task.smooth? files = some (result, s)) :
    ∃ reply next, result = some reply ∧ command.Sets files settings reply s ∧
      Settings.Keeps path s next := by
  obtain ⟨reply, rfl, hcases⟩ := smooth?_cases hkeeps.load h
  rcases hcases with ⟨fault, hassign, hexit, rfl⟩ | ⟨next, mid, hassign, hmake, hcases⟩
  · have hread : Assignment.read? command.name command.text = none := by
      cases hread : Assignment.read? command.name command.text with
      | none => rfl
      | some assignment =>
        obtain ⟨next, hok, -⟩ := Settings.exists_assignNamed settings hread
        rw [hassign] at hok
        cases hok
    exact ⟨reply, settings, rfl, .of_refused hexit rfl hkeeps.load (.inl hread), hkeeps⟩
  · obtain ⟨assignment, hread, hget⟩ := Settings.assignNamed_eq_ok.1 hassign
    rcases hcases with ⟨fault, hencode, hexit, rfl⟩ | ⟨text, hencode, hexit, hwrite⟩
    · obtain ⟨hkept, hheld⟩ := hkeeps.makeParent hmake
      obtain ⟨size, hsize, hlarge⟩ := Settings.encode_eq_error_iff.1 ⟨fault, hencode⟩
      rw [hget] at hsize
      have hsets := Sets.of_refused hexit hheld hkept.load
        (.inr ⟨assignment, size, hread, hsize, hlarge⟩)
      exact ⟨reply, settings, rfl, hsets, hkept⟩
    · have hkept := Settings.Keeps.of_encode hencode hwrite
      refine ⟨reply, next, rfl, ⟨fun hne => absurd hexit hne, ?_, ?_⟩, hkept⟩
      · exact fun _ => ⟨assignment, next, hread, Settings.run_load_iff.2 hkept.load, hget⟩
      · refine iff_of_false (fun hne => hne hexit) ?_
        rintro (hnone | ⟨other, size, hother, hsize, hlarge⟩)
        · rw [hread] at hnone
          cases hnone
        · cases hread.symm.trans hother
          rw [← hget] at hsize
          obtain ⟨fault, herror⟩ := Settings.encode_eq_error_iff.2 ⟨size, hsize, hlarge⟩
          rw [hencode] at herror
          cases herror

end SetCommand

/-! ## Histories -/

/-- A command that sets a setting, with the reply to it. -/
structure SetEvent (path : Path) where
  command : SetCommand path
  reply : Reply

/-- The value that a command gave to a setting, if it succeeded and was about this one. -/
def SetEvent.assigned? {path : Path} (key : SettingKey) (event : SetEvent path) :
    Option SettingValue :=
  if event.reply.exit = 0 then
    ((Assignment.read? event.command.name event.command.text).filter
      fun assignment => assignment.key = key).map Assignment.value
  else none

/-- The value that a setting was given last. -/
def lastAssigned? {path : Path} (key : SettingKey) (history : List (SetEvent path)) :
    Option SettingValue :=
  history.reverse.findSome? (SetEvent.assigned? key)

namespace Settings

variable {path : Path} {files mid s : Files} {initial settings next : Settings}
  {history : List (SetEvent path)} {event : SetEvent path} {key : SettingKey}

/-- Commands were run one after the other in which no file operation failed, on these files at
first, with those at the end. -/
inductive Happens (path : Path) : List (SetEvent path) → Files → Files → Prop
  | nil (files : Files) : Happens path [] files files
  | cons {event : SetEvent path} {history : List (SetEvent path)} {files mid s : Files}
      (run : event.command.task.smooth? files = some (some event.reply, mid))
      (rest : Happens path history mid s) : Happens path (event :: history) files s

/-- The files after a history, as a map that had these values at first. -/
structure Agrees (path : Path) (initial : Settings) (history : List (SetEvent path)) (s : Files)
    (settings : Settings) : Prop where
  load : (Settings.load path).run s = (.ok settings, s)
  get? : ∀ key, settings.get? key = (lastAssigned? key history).or (initial.get? key)
  pos : ∀ size, lastAssigned? .pageSize history = some (.count size) → 0 < size
  /-- The next command, if no file operation fails in it. -/
  sets : ∀ (command : SetCommand path) (result : Option Reply) (t : Files),
    command.task.smooth? s = some (result, t) →
      ∃ reply, result = some reply ∧ command.Sets s settings reply t

/-- Whatever settings are set in the file one after the other, the file is a map that had these
values at first. -/
def IsMap (path : Path) (files : Files) (initial : Settings) : Prop :=
  ∀ history s, Happens path history files s → ∃ settings, Agrees path initial history s settings

theorem lastAssigned?_cons (key : SettingKey) (event : SetEvent path)
    (history : List (SetEvent path)) :
    lastAssigned? key (event :: history) = (lastAssigned? key history).or (event.assigned? key) := by
  simp [lastAssigned?, List.findSome?_append]

/-- What is loaded after a command is what was loaded before, but for what it assigned. -/
theorem get?_of_sets (h : event.command.Sets files settings event.reply s)
    (hload : loaded path s = .ok next) (key : SettingKey) :
    next.get? key = (event.assigned? key).or (settings.get? key) := by
  unfold SetEvent.assigned?
  split
  · rename_i hzero
    obtain ⟨assignment, found, hread, hfound, hget⟩ := h.set hzero
    cases hload.symm.trans (run_load_iff.1 hfound)
    rw [hget, hread, Assignment.after]
    by_cases hkey : key = assignment.key
    · simp [hkey, Option.filter]
    · simp [hkey, Ne.symm hkey, Option.filter]
  · rename_i hne
    cases hload.symm.trans (run_load_iff.1 (h.refused hne).2)
    rfl

/-- What holds of one command holds of whole histories. -/
theorem Keeps.happens (hkeeps : Keeps path files initial) (h : Happens path history files s) :
    ∃ settings, Keeps path s settings ∧
      ∀ key, settings.get? key = (lastAssigned? key history).or (initial.get? key) := by
  induction h generalizing initial with
  | nil files => exact ⟨initial, hkeeps, fun _ => rfl⟩
  | cons run rest ih =>
    obtain ⟨reply, next, heq, hsets, hkept⟩ := SetCommand.sets hkeeps run
    cases heq
    obtain ⟨settings, hlast, hget⟩ := ih hkept
    refine ⟨settings, hlast, fun key => ?_⟩
    rw [hget, get?_of_sets hsets hkept.load, lastAssigned?_cons, Option.or_assoc]

theorem pos_of_assigned? {size : Nat} (h : event.assigned? .pageSize = some (.count size)) :
    0 < size := by
  unfold SetEvent.assigned? at h
  split at h
  · obtain ⟨⟨key, value⟩, hassignment, rfl⟩ := Option.map_eq_some_iff.1 h
    obtain ⟨hread, hkey⟩ := Option.filter_eq_some_iff.1 hassignment
    obtain rfl : key = .pageSize := by simpa using hkey
    exact Assignment.pos_of_read? hread
  · cases h

/-- Where the file can be loaded, and a missing one stays missing, it is a map. -/
theorem Keeps.isMap (hkeeps : Keeps path files initial) : IsMap path files initial := by
  intro history s hhappens
  obtain ⟨settings, hkept, hget⟩ := hkeeps.happens hhappens
  refine ⟨settings, ?_, hget, ?_, ?_⟩
  · exact run_load_iff.2 hkept.load
  · intro size hlast
    obtain ⟨event, -, hassigned⟩ := List.exists_of_findSome?_eq_some hlast
    exact pos_of_assigned? hassigned
  · intro command result t hrun
    obtain ⟨reply, -, heq, hsets, -⟩ := SetCommand.sets hkept hrun
    exact ⟨reply, heq, hsets⟩

/-! ## Files that are no map -/

/-- Around a command only the place of the settings is known. -/
def placing (path : Path) : Environment where
  lookup? name := if name = "QQ_CONFIG" then some path.text else none
  accountHome := none
  today := ⟨1970, 1, 1⟩
  now := 0
  entropy := 0

/-- The command that sets a setting and has no options. -/
def plainSet (path : Path) (name text : String)
    (asks : Invocation.read (placing path) ["config", "set", name, text] =
      .ok ⟨⟨false, false, false, false, none⟩, .setSetting name text⟩) : SetCommand path where
  environment := placing path
  arguments := ["config", "set", name, text]
  shared := ⟨false, false, false, false, none⟩
  name := name
  text := text
  place := rfl
  asks := asks

/-- A command that asks for a page size which is too large for the file. -/
def tooLarge (path : Path) : SetCommand path :=
  plainSet path "query.page_size" "9223372036854775808" (rfl)

theorem read?_tooLarge : Assignment.read? "query.page_size" "9223372036854775808" =
    some ⟨.pageSize, .count 9223372036854775808⟩ := by
  decide +kernel

/-- The command is refused when it has made the directory of the file. -/
theorem exists_smooth?_tooLarge (hload : loaded path files = .ok settings)
    (hmake : files.makeParent path = (.ok (), s)) :
    ∃ refusal, (tooLarge path).task.smooth? files = some (some refusal, s) ∧ refusal.exit = 5 := by
  obtain ⟨next, hassign, hget⟩ := exists_assignNamed settings read?_tooLarge
  obtain ⟨fault, hencode⟩ := encode_eq_error_iff.2 ⟨_, congrFun hget .pageSize, by decide⟩
  exact ⟨_, SetCommand.smooth?_of_encode_error hload hassign hencode hmake, rfl⟩

/-- The file is no map if it comes into sight when its directory is made. -/
theorem not_isMap_of_contains (hmissing : files.contains path = false)
    (hmake : files.makeParent path = (.ok (), s)) (hfound : s.contains path = true) :
    ¬ IsMap path files initial := by
  intro hmap
  obtain ⟨settings, hagrees⟩ := hmap [] files (.nil files)
  obtain ⟨refusal, hrun, hexit⟩ := exists_smooth?_tooLarge (loaded_of_missing hmissing) hmake
  obtain ⟨reply, heq, hsets⟩ := hagrees.sets _ _ _ hrun
  cases heq
  obtain ⟨hheld, -⟩ := hsets.refused (by simp [hexit])
  rw [Files.held?_eq_none_iff.2 hmissing, Files.held?_eq_none_iff, hfound] at hheld
  cases hheld

/-! ## Files that are a map -/

/-- The file is a map if and only if it is there at first, or missing and not brought into sight when
its directory is made. -/
theorem isMap_iff (hload : (load path).run files = (.ok initial, files)) :
    IsMap path files initial ↔ files.contains path = true ∨ files.StaysMissing path := by
  constructor
  · intro hmap
    cases hfound : files.contains path with
    | true => exact .inl rfl
    | false =>
      refine .inr ⟨hfound, fun s hmake => ?_⟩
      by_contra hpresent
      exact not_isMap_of_contains hfound hmake (by simpa using hpresent) hmap
  · intro hpresent
    exact Keeps.isMap ⟨run_load_iff.1 hload, hpresent⟩

/-- A directory with nothing in it. -/
def bare : Files := ⟨["data"], [(["data"], .directory)]⟩

/-- A file whose directory is missing. -/
def deepPath : Path := ⟨"new/settings.toml"⟩

def dozen : SetCommand deepPath := plainSet deepPath "query.page_size" "12" (by decide +kernel)

theorem staysMissing_deepPath : bare.StaysMissing deepPath where
  missing := rfl
  made s hmake := by
    have hmakes : bare.makeParent deepPath = (.ok (), bare.put ["data", "new"] .directory) := rfl
    rw [hmakes] at hmake
    cases hmake
    rfl

/-- The first command is refused but makes the directory; the second one sets the page size. -/
theorem isMap_deepPath :
    (load deepPath).run bare = (.ok {}, bare) ∧ bare.StaysMissing deepPath ∧
      IsMap deepPath bare {} ∧
      ∃ refusal s, refusal.exit = 5 ∧
        Happens deepPath [⟨tooLarge deepPath, refusal⟩,
          ⟨dozen, .printed "Set query.page_size = 12\n"⟩] bare s := by
  have hload : (load deepPath).run bare = (.ok {}, bare) := rfl
  refine ⟨hload, staysMissing_deepPath, (isMap_iff hload).2 (.inr staysMissing_deepPath), ?_⟩
  have hmake : bare.makeParent deepPath = (.ok (), bare.put ["data", "new"] .directory) := rfl
  have hdozen : assignNamed {} dozen.name dozen.text = .ok { pageSize := some 12 } := by
    decide +kernel
  obtain ⟨text, htext⟩ : ∃ text, SettingsDocument.encode
      ⟨currentVersion, { pageSize := some 12 }⟩ = .ok text := ⟨_, if_neg (by decide)⟩
  have hwrite : (bare.put ["data", "new"] .directory).write deepPath text.toUTF8 = .ok _ := rfl
  obtain ⟨refusal, hlarge, hexit⟩ := exists_smooth?_tooLarge (loaded_of_missing rfl) hmake
  have hset := dozen.smooth?_of_encode (loaded_of_missing rfl) hdozen htext
    (Files.makeParent_again hmake) hwrite
  exact ⟨refusal, _, hexit, .cons hlarge (.cons hset (.nil _))⟩

/-- A path that leads into a directory that is missing and up again. -/
def roundaboutPath : Path := ⟨"a/../settings.toml"⟩

/-- Settings that a user has at the end of this path. -/
def strictText : String := "[query]\nstrict = true\n"

def older : Files :=
  ⟨["data"], [(["data"], .directory), (["data", "settings.toml"], .file strictText.toUTF8)]⟩

/-- That the file is missing at first is not enough: a command that is refused may have made the
directory on the way, and then older settings are found and loaded. -/
theorem not_isMap_roundaboutPath :
    older.contains roundaboutPath = false ∧
      (load roundaboutPath).run older = (.ok {}, older) ∧
      (∃ refusal s, (tooLarge roundaboutPath).task.smooth? older = some (some refusal, s) ∧
        refusal.exit = 5 ∧ (load roundaboutPath).run s = (.ok { strict := some true }, s)) ∧
      ¬ IsMap roundaboutPath older {} := by
  have hmissing : older.contains roundaboutPath = false := rfl
  have hmake : older.makeParent roundaboutPath = (.ok (), older.put ["data", "a"] .directory) := rfl
  have hfind : (older.put ["data", "a"] .directory).find roundaboutPath =
      .ok (.file strictText.toUTF8) := rfl
  have hdecode : decode strictText = .ok { strict := some true } := by decide +kernel
  obtain ⟨refusal, hrun, hexit⟩ := exists_smooth?_tooLarge (loaded_of_missing hmissing) hmake
  refine ⟨hmissing, ?_, ⟨refusal, _, hrun, hexit, ?_⟩,
    not_isMap_of_contains hmissing hmake (Files.contains_of_find hfind)⟩
  · exact run_load_iff.2 (loaded_of_missing hmissing)
  · exact run_load_iff.2 ((loaded_of_find hfind).trans hdecode)

end Settings

end RecordQuery
