/-
  The configuration file (`config/config.cpp`).

  `fromJson` assigns the keys that a file has one after the other, to a configuration with the
  defaults.  What throws at a value of the wrong type is caught in `load`, which reports that the
  defaults are used; but what has been assigned by then stays assigned.

  `parts` is the list of the keys, in the order of the code.
-/
import NarMusic.Download.Queue
import NarMusic.Http.Router
import NarMusic.Lib.Fields
import NarMusic.Lib.JsonValue

namespace NarMusic

open Cxx JsonValue

/-! ## The record -/

structure ServerConfig where
  port : ℤ := 8080
  backlog : ℤ := 512
  connection_timeout : ℤ := 30
  thread_pool_size : ℤ := 5

structure BilibiliConfig where
  user_agent : Str := lit "Mozilla/5.0 (Windows NT 10.0; Win64; x64) AppleWebKit/537.36 (KHTML, like Gecko) Chrome/120.0.0.0 Safari/537.36"
  connect_timeout : ℤ := 10
  request_timeout : ℤ := 15

structure LyricsConfig where
  default_platform : Str := lit "酷狗音乐"
  platforms : List Str := [lit "酷狗音乐", lit "网易云音乐", lit "QQ音乐", lit "汽水音乐"]

structure LogConfig where
  level : Str := lit "info"
  file : Str := lit "./logs/narnat.log"
  max_size_mb : ℕ := 10

structure DatabaseConfig where
  path : Str := lit "./data/narnat.db"

structure CpolarConfig where
  enabled : Bool := false
  authtoken : Str := []
  subdomain : Str := []
  region : Str := lit "cn"
  bin_path : Str := lit "cpolar"
  monitor_interval : ℤ := 60

structure EmailAccount where
  sender : Str := []
  password : Str := []
  receiver : Str := []

structure EmailConfig where
  enabled : Bool := false
  smtp_host : Str := lit "smtp.qq.com"
  smtp_port : ℤ := 465
  accounts : List EmailAccount := []

structure ProtectionConfig where
  enabled : Bool := false
  password : Str := []

/-- With what a download does not read. -/
structure Config.DownloadConfig extends NarMusic.DownloadConfig where
  cleanup_interval : ℤ := 600

structure Config where
  server : ServerConfig := {}
  download : Config.DownloadConfig := {}
  bilibili : BilibiliConfig := {}
  lyrics : LyricsConfig := {}
  logging : LogConfig := {}
  database : DatabaseConfig := {}
  cpolar : CpolarConfig := {}
  email : EmailConfig := {}
  protection : ProtectionConfig := {}
  debug_mode : Bool := false

namespace Config

/-! ## Reading -/

/-- `field = v.get<T>()` -/
def readScalar {α : Type} (get : JsonValue → Except Exn α) (v : JsonValue) (old : α) : Except Exn Unit × α :=
  match get v with
  | .ok a => (.ok (), a)
  | .error e => (.error e, old)

/-- The loop over the platforms. -/
def pushPlatforms : List JsonValue → List Str → Except Exn Unit × List Str
  | [], platforms => (.ok (), platforms)
  | p :: ps, platforms =>
    match p.getString with
    | .ok s => pushPlatforms ps (platforms ++ [s])
    | .error e => (.error e, platforms)

/-- The old platforms are cleared first. -/
def readPlatforms (v : JsonValue) (_ : List Str) : Except Exn Unit × List Str := pushPlatforms v.elements []

/-- `if (acc.contains(key)) field = acc[key].get<std::string>()` -/
def textOr (key : String) (acc : JsonValue) : Except Exn Str :=
  match acc.find? key with
  | some v => v.getString
  | none => .ok []

def readAccount (acc : JsonValue) : Except Exn EmailAccount := do
  let sender ← textOr "sender" acc
  let password ← textOr "password" acc
  let receiver ← textOr "receiver" acc
  return { sender, password, receiver }

def EmailAccount.complete (ea : EmailAccount) : Bool := ea.sender ≠ [] ∧ ea.password ≠ [] ∧ ea.receiver ≠ []

/-- The loop over the accounts. -/
def pushAccounts : List JsonValue → List EmailAccount → Except Exn Unit × List EmailAccount
  | [], accounts => (.ok (), accounts)
  | acc :: accs, accounts =>
    match readAccount acc with
    | .ok ea => pushAccounts accs (if EmailAccount.complete ea then accounts ++ [ea] else accounts)
    | .error e => (.error e, accounts)

/-- What is no array is passed over. -/
def readAccounts (v : JsonValue) (accounts : List EmailAccount) : Except Exn Unit × List EmailAccount :=
  match v with
  | .arr accs => pushAccounts accs accounts
  | _ => (.ok (), accounts)

/-- A key of a part of the file, and what is done to its field for a value. -/
structure Setting (σ : Type) where
  key : String
  field : Fields.Field σ
  read : JsonValue → field.Value → Except Exn Unit × field.Value

/-- A part of the file, with its keys. -/
structure Part where
  key : String
  field : Fields.Field Config
  settings : List (Setting field.Value)

/-- The field is given by its two functions. -/
def setting {σ α : Type} (key : String) (read : JsonValue → α → Except Exn Unit × α) (get : σ → α)
    (set : σ → α → σ) (get_set : ∀ c a, get (set c a) = a := by intros; rfl)
    (set_get : ∀ c, set c (get c) = c := by intros; rfl) : Setting σ where
  key := key
  field := ⟨α, get, set, get_set, set_get⟩
  read := read

def part {σ : Type} (key : String) (get : Config → σ) (set : Config → σ → Config) (settings : List (Setting σ))
    (get_set : ∀ c a, get (set c a) = a := by intros; rfl)
    (set_get : ∀ c, set c (get c) = c := by intros; rfl) : Part where
  key := key
  field := ⟨σ, get, set, get_set, set_get⟩
  settings := settings

def serverSettings : List (Setting ServerConfig) := [
  setting "port" (readScalar getInt) (·.port) fun c a => { c with port := a },
  setting "backlog" (readScalar getInt) (·.backlog) fun c a => { c with backlog := a },
  setting "connection_timeout" (readScalar getInt) (·.connection_timeout)
    fun c a => { c with connection_timeout := a },
  setting "thread_pool_size" (readScalar getInt) (·.thread_pool_size) fun c a => { c with thread_pool_size := a }]

def downloadSettings : List (Setting DownloadConfig) := [
  setting "path" (readScalar getString) (·.path) fun c a => { c with path := a },
  setting "extension" (readScalar getString) (·.extension) fun c a => { c with extension := a },
  setting "cleanup_interval" (readScalar getInt) (·.cleanup_interval) fun c a => { c with cleanup_interval := a },
  setting "max_age" (readScalar getInt) (·.max_age) fun c a => { c with max_age := a }]

def bilibiliSettings : List (Setting BilibiliConfig) := [
  setting "user_agent" (readScalar getString) (·.user_agent) fun c a => { c with user_agent := a },
  setting "connect_timeout" (readScalar getInt) (·.connect_timeout) fun c a => { c with connect_timeout := a },
  setting "request_timeout" (readScalar getInt) (·.request_timeout) fun c a => { c with request_timeout := a }]

def lyricsSettings : List (Setting LyricsConfig) := [
  setting "default_platform" (readScalar getString) (·.default_platform)
    fun c a => { c with default_platform := a },
  setting "platforms" readPlatforms (·.platforms) fun c a => { c with platforms := a }]

def loggingSettings : List (Setting LogConfig) := [
  setting "level" (readScalar getString) (·.level) fun c a => { c with level := a },
  setting "file" (readScalar getString) (·.file) fun c a => { c with file := a },
  setting "max_size_mb" (readScalar getSize) (·.max_size_mb) fun c a => { c with max_size_mb := a }]

def databaseSettings : List (Setting DatabaseConfig) := [
  setting "path" (readScalar getString) (·.path) fun c a => { c with path := a }]

def cpolarSettings : List (Setting CpolarConfig) := [
  setting "enabled" (readScalar getBool) (·.enabled) fun c a => { c with enabled := a },
  setting "authtoken" (readScalar getString) (·.authtoken) fun c a => { c with authtoken := a },
  setting "subdomain" (readScalar getString) (·.subdomain) fun c a => { c with subdomain := a },
  setting "region" (readScalar getString) (·.region) fun c a => { c with region := a },
  setting "bin_path" (readScalar getString) (·.bin_path) fun c a => { c with bin_path := a },
  setting "monitor_interval" (readScalar getInt) (·.monitor_interval) fun c a => { c with monitor_interval := a }]

def emailSettings : List (Setting EmailConfig) := [
  setting "enabled" (readScalar getBool) (·.enabled) fun c a => { c with enabled := a },
  setting "smtp_host" (readScalar getString) (·.smtp_host) fun c a => { c with smtp_host := a },
  setting "smtp_port" (readScalar getInt) (·.smtp_port) fun c a => { c with smtp_port := a },
  setting "accounts" readAccounts (·.accounts) fun c a => { c with accounts := a }]

def protectionSettings : List (Setting ProtectionConfig) := [
  setting "enabled" (readScalar getBool) (·.enabled) fun c a => { c with enabled := a },
  setting "password" (readScalar getString) (·.password) fun c a => { c with password := a }]

def parts : List Part := [
  part "server" (·.server) (fun c a => { c with server := a }) serverSettings,
  part "download" (·.download) (fun c a => { c with download := a }) downloadSettings,
  part "bilibili" (·.bilibili) (fun c a => { c with bilibili := a }) bilibiliSettings,
  part "lyrics" (·.lyrics) (fun c a => { c with lyrics := a }) lyricsSettings,
  part "logging" (·.logging) (fun c a => { c with logging := a }) loggingSettings,
  part "database" (·.database) (fun c a => { c with database := a }) databaseSettings,
  part "cpolar" (·.cpolar) (fun c a => { c with cpolar := a }) cpolarSettings,
  part "email" (·.email) (fun c a => { c with email := a }) emailSettings,
  part "protection" (·.protection) (fun c a => { c with protection := a }) protectionSettings]

/-- The assignments for the keys that a part has. -/
def Part.assignments (p : Part) (s : JsonValue) : List (Fields.Assignment Config Exn) :=
  p.settings.filterMap fun st => (s.find? st.key).map fun v => ⟨p.field.comp st.field, st.read v⟩

/-- The assignments for the keys that a file has, in order. -/
def assignments (j : JsonValue) : List (Fields.Assignment Config Exn) :=
  parts.flatMap fun p => (j.find? p.key).elim [] p.assignments

def fromJson (j : JsonValue) : Stateful Config Unit := Fields.applyAll (assignments j)

/-- The error that is reported, and the configuration.  `file` is the content of the file, if it can
    be opened. -/
def load (parse : Str → Except Exn JsonValue) (file : Option Str) : Option Exn × Config :=
  match file with
  | none => (none, {})
  | some content =>
    match parse content with
    | .error e => (some e, {})
    | .ok j =>
      match fromJson j {} with
      | (.ok _, cfg) => (none, cfg)
      | (.error e, cfg) => (some e, cfg)

/-! ## Loaded as a whole -/

/-- The defaults, with every key that the file has applied. -/
def applied (j : JsonValue) : Config :=
  (assignments j).foldl (fun cfg w => w.field.set cfg (w.value {})) {}

/-- The defaults with every key of the file applied, or a report and the defaults. -/
def Atomic (parse : Str → Except Exn JsonValue) (file : Option Str) : Prop :=
  match load parse file with
  | (none, cfg) => (file = none ∧ cfg = {}) ∨ ∃ content j, file = some content ∧ parse content = .ok j ∧ cfg = applied j
  | (some _, cfg) => cfg = {}

/-! ## Independence -/

theorem settings_independent {p : Part} (hp : p ∈ parts) :
    p.settings.Pairwise fun st st' => Fields.Independent st.field st'.field := by
  simp only [parts, List.mem_cons, List.not_mem_nil, or_false] at hp
  rcases hp with rfl | rfl | rfl | rfl | rfl | rfl | rfl | rfl | rfl
  all_goals
    simp only [part, serverSettings, downloadSettings, bilibiliSettings, lyricsSettings, loggingSettings,
      databaseSettings, cpolarSettings, emailSettings, protectionSettings, List.pairwise_cons,
      List.forall_mem_cons, List.not_mem_nil, false_imp_iff, implies_true, and_true, List.Pairwise.nil]
    repeat' first
      | exact ⟨fun _ _ => rfl, fun _ _ => rfl⟩
      | constructor

theorem parts_independent : parts.Pairwise fun p p' => Fields.Independent p.field p'.field := by
  simp only [parts, List.pairwise_cons, List.forall_mem_cons, List.not_mem_nil, false_imp_iff, implies_true,
    and_true, List.Pairwise.nil]
  repeat' first
    | exact ⟨fun _ _ => rfl, fun _ _ => rfl⟩
    | constructor

/-- An assignment of a part is to a field of the part. -/
theorem assignment_field {p : Part} {j : JsonValue} {w : Fields.Assignment Config Exn}
    (hw : w ∈ (j.find? p.key).elim [] p.assignments) : ∃ g, w.field = p.field.comp g := by
  cases hs : j.find? p.key with
  | none =>
    rw [hs] at hw
    cases hw
  | some s =>
    rw [hs] at hw
    obtain ⟨st, -, hw⟩ := List.mem_filterMap.1 hw
    obtain ⟨v, -, rfl⟩ := Option.map_eq_some_iff.1 hw
    exact ⟨st.field, rfl⟩

/-- Every key has a field of its own. -/
theorem assignments_independent (j : JsonValue) :
    (assignments j).Pairwise fun w w' => Fields.Independent w.field w'.field := by
  refine List.pairwise_flatMap.2 ⟨fun p hp => ?_, parts_independent.imp fun hpp' w hw w' hw' => ?_⟩
  · cases j.find? p.key with
    | none => exact List.Pairwise.nil
    | some s =>
      refine List.Pairwise.filterMap _ (fun st st' hst w hw w' hw' => ?_) (settings_independent hp)
      obtain ⟨v, -, rfl⟩ := Option.map_eq_some_iff.1 hw
      obtain ⟨v', -, rfl⟩ := Option.map_eq_some_iff.1 hw'
      exact hst.comp_same _
  · obtain ⟨g, hg⟩ := assignment_field hw
    obtain ⟨g', hg'⟩ := assignment_field hw'
    rw [hg, hg']
    exact hpp'.comp g g'

/-! ## Loading -/

/-- **A configuration is loaded as a whole** exactly when, with a value of the wrong type in it, all
    values up to the first such one are the defaults, and so is what that one makes of its field. -/
theorem load_atomic_iff (parse : Str → Except Exn JsonValue) (file : Option Str) :
    Atomic parse file ↔ ∀ content j, file = some content → parse content = .ok j →
      (∃ w ∈ assignments j, w.Fails {}) → ∀ w ∈ Fields.attempted {} (assignments j), w.Keeps {} := by
  cases file with
  | none => exact iff_of_true (Or.inl ⟨rfl, rfl⟩) fun _ _ h => by cases h
  | some content =>
    cases hj : parse content with
    | error e =>
      have hload : load parse (some content) = (some e, {}) := by simp only [load, hj]
      unfold Atomic
      rw [hload]
      refine iff_of_true rfl fun content' j hcontent h => ?_
      obtain rfl := Option.some.inj hcontent
      cases hj.symm.trans h
    | ok j =>
      have hindependent := assignments_independent j
      obtain ⟨-, hfails⟩ := Fields.applyAll_setAll hindependent (s := ({} : Config)) fun _ _ => rfl
      have hkeeps := Fields.applyAll_keeps_iff hindependent (s := ({} : Config))
      have hok := Fields.applyAll_ok hindependent (s := ({} : Config))
      cases hrun : Fields.applyAll (assignments j) ({} : Config) with
      | mk result cfg =>
        rw [hrun] at hfails hkeeps hok
        cases result with
        | ok u =>
          have hload : load parse (some content) = (none, cfg) := by simp only [load, hj, fromJson, hrun]
          unfold Atomic
          rw [hload]
          refine iff_of_true (Or.inr ⟨content, j, rfl, hj, hok rfl⟩) fun content' j' hcontent hj' hwrong => ?_
          obtain rfl := Option.some.inj hcontent
          obtain rfl := Except.ok.inj (hj.symm.trans hj')
          obtain ⟨e, he⟩ := hfails.2 hwrong
          cases he
        | error e =>
          have hload : load parse (some content) = (some e, cfg) := by simp only [load, hj, fromJson, hrun]
          unfold Atomic
          rw [hload]
          constructor
          · intro h content' j' hcontent hj' _
            obtain rfl := Option.some.inj hcontent
            obtain rfl := Except.ok.inj (hj.symm.trans hj')
            exact hkeeps.1 h
          · intro h
            exact hkeeps.2 (h content j rfl hj (hfails.1 ⟨e, rfl⟩))

def wrongText : Str := lit "\x7b\"server\":\x7b\"port\":1\x7d,\"download\":\x7b\"path\":5\x7d\x7d"

/-- The port is kept although the path is no string. -/
theorem port_kept : ¬ ∀ (parse : Str → Except Exn JsonValue) (file : Option Str), Atomic parse file := by
  intro h
  have hport := h (fun s => if s = wrongText then
    .ok (.obj [("server", .obj [("port", .int 1)]), ("download", .obj [("path", .int 5)])])
    else .error (.other [])) (some wrongText)
  have hdefault : (1 : ℤ) = 8080 := congrArg (·.server.port) hport
  exact absurd hdefault (by decide)

end Config

end NarMusic
