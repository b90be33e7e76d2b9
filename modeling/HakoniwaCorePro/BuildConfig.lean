import HakoniwaCorePro.SimpleYaml
import Mathlib.Data.List.Sort

/-!
# Build configurations

`resolve_config` in `tools/hako.py`: what a manifest has to say, and what holds where it says nothing.
-/

namespace HakoniwaCorePro
namespace BuildManifest

open Launch (Text lit)

local instance : BEq Text := instBEqOfDecidableEq

/-- The keys of `MANIFEST_TO_NATIVE_KEY`. -/
def limitKeys : List Text :=
  [lit "asset_num", lit "pdu_channel_max", lit "recv_event_max", lit "service_client_max",
    lit "service_max", lit "client_name_len_max", lit "service_name_len_max"]

def rootKeys : List Text :=
  [lit "version", lit "limits", lit "python", lit "features", lit "validation"]

def featureKeys : List Text := [lit "callback_assets_shared", lit "core_shared"]

/-- The limits of a configuration, each of them positive. -/
abbrev Limits (keys : List Text) := {l : List (Text × {n : ℤ // 0 < n}) // l.map Prod.fst = keys}

/-- What `resolve_config` returns; the version is 1. -/
structure BuildConfig where
  limits : Limits limitKeys
  soabi : Bool
  callbackAssetsShared : Bool
  coreShared : Bool
  tests : Bool

def notAfter : Text → Text → Bool
  | [], _ => true
  | _ :: _, [] => false
  | a :: s, b :: t => a < b || (a = b && notAfter s t)

/-- `', '.join(sorted(keys))` -/
def joinSorted (keys : List Text) : Text :=
  (lit ", ").intercalate (keys.insertionSort fun s t => notAfter s t = true)

def checkUnknown (under : Text) (known : List Text) (es : Entries) : Except HakoError Unit :=
  let unknown := (es.map Prod.fst).filter (· ∉ known)
  if unknown = [] then .ok ()
  else .error (.config (lit "unknown key(s) under " ++ under ++ lit ": " ++ joinSorted unknown))

def checkMissing (under : Text) (required : List Text) (es : Entries) : Except HakoError Unit :=
  let missing := required.filter (· ∉ es.map Prod.fst)
  if missing = [] then .ok ()
  else .error (.config (lit "missing required key(s) under " ++ under ++ lit ": " ++ joinSorted missing))

def asMapping (name : Text) : Yaml → Except HakoError Entries
  | .map es => .ok es
  | _ => .error (.config (name ++ lit " must be a mapping"))

def asBoolean (name : Text) : Yaml → Except HakoError Bool
  | .bool b => .ok b
  | _ => .error (.config (name ++ lit " must be a boolean"))

/-- `version != 1` does not tell `true` from 1. -/
def checkVersion : Option Yaml → Except HakoError Unit
  | some (.int 1) | some (.bool true) => .ok ()
  | _ => .error (.config (lit "version must be 1"))

def resolveLimit (limits : Entries) (key : Text) : Except HakoError {n : ℤ // 0 < n} :=
  match entry key limits with
  | some (.int n) =>
    if h : 0 < n then .ok ⟨n, h⟩
    else .error (.config (lit "limits." ++ key ++ lit " must be a positive integer"))
  | _ => .error (.config (lit "limits." ++ key ++ lit " must be a positive integer"))

theorem limits_cons {key : Text} {keys : List Text} {l : List (Text × {n : ℤ // 0 < n})}
    (n : {n : ℤ // 0 < n}) (h : l.map Prod.fst = keys) : ((key, n) :: l).map Prod.fst = key :: keys :=
  congrArg (key :: ·) h

def resolveLimits (limits : Entries) : (keys : List Text) → Except HakoError (Limits keys)
  | [] => .ok ⟨[], rfl⟩
  | key :: keys => do
    let n ← resolveLimit limits key
    let ⟨rest, h⟩ ← resolveLimits limits keys
    return ⟨(key, n) :: rest, limits_cons n h⟩

def resolvePython (raw : Entries) : Except HakoError Bool := do
  let python ← asMapping (lit "python") ((entry (lit "python") raw).getD (.map []))
  checkUnknown (lit "python") [lit "soabi"] python
  asBoolean (lit "python.soabi") ((entry (lit "soabi") python).getD (.bool false))

def resolveFeature (features : Entries) (feature : Text) : Except HakoError Bool :=
  asBoolean (lit "features." ++ feature) ((entry feature features).getD (.bool false))

def resolveFeatures (raw : Entries) : Except HakoError (Bool × Bool) := do
  let features ← asMapping (lit "features") ((entry (lit "features") raw).getD (.map []))
  checkUnknown (lit "features") featureKeys features
  let callbackAssetsShared ← resolveFeature features (lit "callback_assets_shared")
  let coreShared ← resolveFeature features (lit "core_shared")
  return (callbackAssetsShared, coreShared)

def resolveValidation (raw : Entries) : Except HakoError Bool := do
  let validation ← asMapping (lit "validation") ((entry (lit "validation") raw).getD (.map []))
  checkUnknown (lit "validation") [lit "tests"] validation
  asBoolean (lit "validation.tests") ((entry (lit "tests") validation).getD (.bool true))

def resolveConfig (raw : Entries) : Except HakoError BuildConfig := do
  checkUnknown (lit "root") rootKeys raw
  checkMissing (lit "root") [lit "version", lit "limits"] raw
  checkVersion (entry (lit "version") raw)
  let limits ← asMapping (lit "limits") ((entry (lit "limits") raw).getD .null)
  checkUnknown (lit "limits") limitKeys limits
  checkMissing (lit "limits") limitKeys limits
  let limits ← resolveLimits limits limitKeys
  let soabi ← resolvePython raw
  let features ← resolveFeatures raw
  let tests ← resolveValidation raw
  return ⟨limits, soabi, features.1, features.2, tests⟩

def BuildConfig.limitEntries (cfg : BuildConfig) : Entries := cfg.limits.1.map fun l => (l.1, .int l.2.1)

def BuildConfig.manifest (cfg : BuildConfig) : Entries :=
  [(lit "version", .int 1), (lit "limits", .map cfg.limitEntries),
    (lit "python", .map [(lit "soabi", .bool cfg.soabi)]),
    (lit "features", .map [(lit "callback_assets_shared", .bool cfg.callbackAssetsShared),
      (lit "core_shared", .bool cfg.coreShared)]),
    (lit "validation", .map [(lit "tests", .bool cfg.tests)])]

theorem limitKeys_nodup : limitKeys.Nodup := by decide

theorem checkUnknown_self (under : Text) {known : List Text} {es : Entries} (h : es.map Prod.fst = known) :
    checkUnknown under known es = .ok () := by
  subst h
  exact if_pos (List.filter_eq_nil_iff.mpr fun k hk => by simp [hk])

theorem checkMissing_self (under : Text) {required : List Text} {es : Entries}
    (h : es.map Prod.fst = required) : checkMissing under required es = .ok () := by
  subst h
  exact if_pos (List.filter_eq_nil_iff.mpr fun k hk => by simp [hk])

theorem entry_of_mem {es : Entries} (hnodup : (es.map Prod.fst).Nodup) {e : Text × Yaml} (h : e ∈ es) :
    entry e.1 es = some e.2 := by
  induction es with
  | nil => cases h
  | cons x es ih =>
    obtain ⟨hx, hes⟩ := List.nodup_cons.mp hnodup
    rcases List.mem_cons.mp h with rfl | hmem
    · simp [entry]
    · have hne : x.1 ≠ e.1 := by
        intro he
        rw [he] at hx
        exact hx (List.mem_map_of_mem hmem)
      rw [entry, if_neg hne, ih hes hmem]

theorem resolveLimits_eq {es : Entries} {keys : List Text} {l : List (Text × {n : ℤ // 0 < n})}
    (hkeys : l.map Prod.fst = keys) (h : ∀ x ∈ l, entry x.1 es = some (.int x.2.1)) :
    resolveLimits es keys = .ok ⟨l, hkeys⟩ := by
  induction l generalizing keys with
  | nil =>
    subst hkeys
    rfl
  | cons x l ih =>
    subst hkeys
    have hx : resolveLimit es x.1 = .ok x.2 := by
      unfold resolveLimit
      rw [h x List.mem_cons_self]
      exact dif_pos x.2.2
    have hrest := ih rfl fun y hy => h y (List.mem_cons_of_mem x hy)
    change (resolveLimit es x.1 >>= fun n => resolveLimits es (l.map Prod.fst) >>= fun rest =>
      (.ok ⟨(x.1, n) :: rest.1, limits_cons n rest.2⟩ : Except HakoError (Limits (x.1 :: l.map Prod.fst)))) = _
    rw [hx, hrest]
    rfl

theorem resolveConfig_manifest (cfg : BuildConfig) : resolveConfig cfg.manifest = .ok cfg := by
  have hkeys : cfg.limitEntries.map Prod.fst = limitKeys := by
    rw [BuildConfig.limitEntries, List.map_map]
    exact cfg.limits.2
  have hlimits : resolveLimits cfg.limitEntries limitKeys = .ok cfg.limits := by
    apply resolveLimits_eq cfg.limits.2
    intro x hx
    have hmem : (x.1, Yaml.int x.2.1) ∈ cfg.limitEntries := List.mem_map_of_mem hx
    exact entry_of_mem (by rw [hkeys]; exact limitKeys_nodup) hmem
  have hunknown := checkUnknown_self (lit "limits") hkeys
  have hmissing := checkMissing_self (lit "limits") hkeys
  have hroot : checkUnknown (lit "root") rootKeys cfg.manifest = .ok () := checkUnknown_self _ rfl
  have hrequired : checkMissing (lit "root") [lit "version", lit "limits"] cfg.manifest = .ok () := rfl
  have hversion : checkVersion (entry (lit "version") cfg.manifest) = .ok () := rfl
  have hmapping : asMapping (lit "limits") ((entry (lit "limits") cfg.manifest).getD .null) =
      .ok cfg.limitEntries := rfl
  have hpython : resolvePython cfg.manifest = .ok cfg.soabi := rfl
  have hfeatures : resolveFeatures cfg.manifest = .ok (cfg.callbackAssetsShared, cfg.coreShared) := rfl
  have hvalidation : resolveValidation cfg.manifest = .ok cfg.tests := rfl
  simp only [resolveConfig, hroot, hrequired, hversion, hmapping, hunknown, hmissing, hlimits, hpython,
    hfeatures, hvalidation, bind, Except.bind]
  rfl

end BuildManifest
end HakoniwaCorePro
