/-
RecordQuery.Proofs.Settings.Assignment — settings as values under keys.

A record of settings is looked at as a map from the four keys to values. A name
and a text make an assignment if there is a key of this name and the text can be
read as a value of it. To assign changes what the map has under this key and
nothing else, and it fails exactly if there is no such assignment.

Main statements:
* `Settings.ext_get?` — settings with the same values are the same;
* `Settings.assignNamed_eq_ok` — what an assignment does, and when there is one;
* `Assignment.pos_of_read?` — no page size of zero is assigned.
-/
import RecordQuery.Proofs.Except
import RecordQuery.Settings.Basic

namespace RecordQuery

/-- A value of one of the settings. -/
inductive SettingValue where
  | switch (value : Bool)
  | count (value : Nat)
  | place (path : Path)
  deriving DecidableEq

/-- The value of a setting, if it is set. -/
def Settings.get? (settings : Settings) : SettingKey → Option SettingValue
  | .strict => settings.strict.map .switch
  | .pageSize => settings.pageSize.map .count
  | .color => settings.color.map .switch
  | .dataPath => settings.dataPath.map .place

/-- The value of a setting that a text spells. -/
def SettingKey.read? (key : SettingKey) (text : String) : Option SettingValue :=
  match key with
  | .strict | .color => (readSwitch? text).map .switch
  | .pageSize => ((readNatural? text).filter fun size => size ≠ 0).map .count
  | .dataPath => some (.place ⟨text⟩)

/-- A value for one of the settings. -/
structure Assignment where
  key : SettingKey
  value : SettingValue
  deriving DecidableEq

namespace Assignment

/-- What a name and a text assign, if the name is one of a setting and the text spells a value. -/
def read? (name text : String) : Option Assignment :=
  (SettingKey.ofName? name).bind fun key => (key.read? text).map fun value => ⟨key, value⟩

/-- The values after an assignment. -/
def after (assignment : Assignment) (values : SettingKey → Option SettingValue) :
    SettingKey → Option SettingValue :=
  fun key => if key = assignment.key then some assignment.value else values key

variable {name text : String} {assignment : Assignment}

/-- The page size of an assignment is positive. -/
theorem pos_of_read? {size : Nat} (h : read? name text = some ⟨.pageSize, .count size⟩) :
    0 < size := by
  obtain ⟨key, -, hvalue⟩ := Option.bind_eq_some_iff.1 h
  obtain ⟨value, hread, heq⟩ := Option.map_eq_some_iff.1 hvalue
  cases heq
  obtain ⟨found, hfound, heq⟩ := Option.map_eq_some_iff.1 hread
  cases heq
  have hne := (Option.filter_eq_some_iff.1 hfound).2
  simp at hne
  omega

end Assignment

namespace Settings

variable {settings next : Settings} {key : SettingKey} {name text : String}

/-- Settings with the same values are the same. -/
theorem ext_get? {other : Settings} (h : settings.get? = other.get?) : settings = other := by
  obtain ⟨strict, pageSize, color, dataPath⟩ := settings
  obtain ⟨strict', pageSize', color', dataPath'⟩ := other
  have hstrict : strict.map SettingValue.switch = strict'.map .switch := congrFun h .strict
  have hsize : pageSize.map SettingValue.count = pageSize'.map .count := congrFun h .pageSize
  have hcolor : color.map SettingValue.switch = color'.map .switch := congrFun h .color
  have hpath : dataPath.map SettingValue.place = dataPath'.map .place := congrFun h .dataPath
  rw [Option.map_inj_right fun _ _ => SettingValue.switch.inj] at hstrict hcolor
  rw [Option.map_inj_right fun _ _ => SettingValue.count.inj] at hsize
  rw [Option.map_inj_right fun _ _ => SettingValue.place.inj] at hpath
  rw [hstrict, hsize, hcolor, hpath]

/-- The value that a text spells takes the place of the one under the key. -/
theorem exists_assign {value : SettingValue} (h : key.read? text = some value) :
    ∃ next, settings.assign key text = .ok next ∧
      next.get? = Assignment.after ⟨key, value⟩ settings.get? := by
  cases key with
  | strict =>
    obtain ⟨switch, hswitch, rfl⟩ := Option.map_eq_some_iff.1 h
    refine ⟨{ settings with strict := some switch }, ?_, ?_⟩
    · simp [assign, readSwitch, hswitch, Except.map]
    · funext other
      cases other <;> rfl
  | pageSize =>
    obtain ⟨size, hsize, rfl⟩ := Option.map_eq_some_iff.1 h
    obtain ⟨hread, hpos⟩ := Option.filter_eq_some_iff.1 hsize
    refine ⟨{ settings with pageSize := some size }, ?_, ?_⟩
    · cases size with
      | zero => simp at hpos
      | succ size => simp [assign, readPageSize, hread, Except.map]
    · funext other
      cases other <;> rfl
  | color =>
    obtain ⟨switch, hswitch, rfl⟩ := Option.map_eq_some_iff.1 h
    refine ⟨{ settings with color := some switch }, ?_, ?_⟩
    · simp [assign, readSwitch, hswitch, Except.map]
    · funext other
      cases other <;> rfl
  | dataPath =>
    cases h
    refine ⟨{ settings with dataPath := some ⟨text⟩ }, rfl, ?_⟩
    funext other
    cases other <;> rfl

/-- A text that spells no value is not assigned. -/
theorem exists_assign_error (h : key.read? text = none) :
    ∃ fault, settings.assign key text = .error fault := by
  cases key with
  | strict =>
    have hswitch := Option.map_eq_none_iff.1 h
    exact ⟨.invalidSwitch text, by simp [assign, readSwitch, hswitch, Except.map]⟩
  | pageSize =>
    have hsize := Option.map_eq_none_iff.1 h
    cases hread : readNatural? text with
    | none => exact ⟨.invalidPageSize text, by simp [assign, readPageSize, hread, Except.map]⟩
    | some size =>
      rw [hread] at hsize
      obtain rfl : size = 0 := by simpa [Option.filter] using hsize
      exact ⟨.invalidPageSize "0", by simp [assign, readPageSize, hread, Except.map]⟩
  | color =>
    have hswitch := Option.map_eq_none_iff.1 h
    exact ⟨.invalidSwitch text, by simp [assign, readSwitch, hswitch, Except.map]⟩
  | dataPath => cases h

/-- What is assigned is what the name and the text say, and no other value is changed. -/
theorem exists_assignNamed (settings : Settings) {assignment : Assignment}
    (h : Assignment.read? name text = some assignment) :
    ∃ next, settings.assignNamed name text = .ok next ∧
      next.get? = assignment.after settings.get? := by
  obtain ⟨key, hkey, hvalue⟩ := Option.bind_eq_some_iff.1 h
  obtain ⟨value, hread, rfl⟩ := Option.map_eq_some_iff.1 hvalue
  rw [assignNamed, hkey]
  exact exists_assign hread

theorem exists_assignNamed_error (settings : Settings)
    (h : Assignment.read? name text = none) :
    ∃ fault, settings.assignNamed name text = .error fault := by
  rw [assignNamed]
  cases hkey : SettingKey.ofName? name with
  | none => exact ⟨.unknownKey name, rfl⟩
  | some key =>
    rw [Assignment.read?, hkey, Option.bind_some, Option.map_eq_none_iff] at h
    exact exists_assign_error h

/-- Settings are changed by an assignment and by nothing else. -/
theorem assignNamed_eq_ok : settings.assignNamed name text = .ok next ↔
    ∃ assignment, Assignment.read? name text = some assignment ∧
      next.get? = assignment.after settings.get? := by
  constructor
  · intro h
    cases hread : Assignment.read? name text with
    | none =>
      obtain ⟨fault, herror⟩ := exists_assignNamed_error settings hread
      rw [herror] at h
      cases h
    | some assignment =>
      obtain ⟨found, hfound, hget⟩ := exists_assignNamed settings hread
      rw [hfound] at h
      cases h
      exact ⟨assignment, rfl, hget⟩
  · rintro ⟨assignment, hread, hget⟩
    obtain ⟨found, hfound, hgot⟩ := exists_assignNamed settings hread
    rw [hfound, ext_get? (hgot.trans hget.symm)]

end Settings

end RecordQuery
