import HakoniwaCorePro.EnvMerge

/-!
# The environment of an asset

The loader, the monitor and the runner each have a part in the environment that a process is given:
`loader.py`, `hako_launcher.py`, `hako_monitor.py` and `hako_asset_runner.py`.
-/

namespace HakoniwaCorePro
namespace Launch

open Fallible PathList

/-- What `EffectiveAsset` keeps of an asset for its environment. -/
structure EffectiveAsset where
  name : Text
  env : Option EnvOps

/-- The operations of the asset, or those of the defaults if it has none. -/
def effectiveAsset (asset : Asset) (defaults : Defaults) : EffectiveAsset where
  name := asset.name
  env := match asset.env with
    | some env => some env
    | none => defaults.env

def defaultsOrEmpty (d : Option Defaults) : Defaults := d.getD ⟨none⟩

/-- `defaults_env_ops`, with which the launcher makes its monitor. -/
def defaultsEnvOps (spec : LauncherSpec) : Option EnvOps := spec.defaults.bind Defaults.env

def mergeEnv (ctx : EnvContext) (osEnv : Env) (defaultsEnv assetEnv : Option EnvOps) :
    Except EnvError Env := do
  let base ← applyOps ctx osEnv defaultsEnv
  applyOps ctx base assetEnv

/-- The environment that a runner starts its process with. -/
def runnerEnv (osEnv env : Env) : Env := fun k => (env k).or (osEnv k)

/-- What `start_all` gives the process of an asset. -/
def childEnv (ctx : EnvContext) (osEnv : Env) (spec : LauncherSpec) (asset : Asset) :
    Except EnvError Env := do
  let a := effectiveAsset asset (defaultsOrEmpty spec.defaults)
  let env ← mergeEnv { ctx with assetName := some a.name } osEnv (defaultsEnvOps spec) a.env
  return runnerEnv osEnv env

/-- The operations of the defaults, once, and then those of the asset. -/
def intendedEnv (ctx : EnvContext) (osEnv : Env) (spec : LauncherSpec) (asset : Asset) :
    Except EnvError Env := do
  let base ← applyOps { ctx with assetName := some asset.name } osEnv (defaultsEnvOps spec)
  applyOps { ctx with assetName := some asset.name } base asset.env

def unsetBy (ops : Option EnvOps) : List Text := (ops.bind EnvOps.unset).getD []

def assignedBy (ctx : EnvContext) (ops : Option EnvOps) : List Text :=
  ((ops.bind EnvOps.set).getD []).map Prod.fst ++
    ((ops.bind EnvOps.prepend).getD []).map (fun entry => realKey ctx entry.1) ++
    ((ops.bind EnvOps.append).getD []).map fun entry => realKey ctx entry.1

/-- One of the two lists of operations unsets the variable, and nothing after that sets it. -/
def LeftUnset (ctx : EnvContext) (first second : Option EnvOps) (k : Text) : Prop :=
  k ∉ assignedBy ctx second ∧ (k ∈ unsetBy second ∨ k ∉ assignedBy ctx first ∧ k ∈ unsetBy first)

structure ReceivesEnv (ctx : EnvContext) (osEnv : Env) (spec : LauncherSpec) (asset : Asset) : Prop where
  receives : ∃ env, childEnv ctx osEnv spec asset = .ok env ∧ intendedEnv ctx osEnv spec asset = .ok env
  unset_absent : ∀ env k, childEnv ctx osEnv spec asset = .ok env →
    LeftUnset ctx (defaultsEnvOps spec) asset.env k → env k = none

def NothingAppended (ops : Option EnvOps) : Prop := (ops.bind EnvOps.append).getD [] = []

/-- An entry of `set` or of `prepend`: its variable, and the value that it is given. -/
structure Assignment where
  key : Text
  value : Env → Text

def setAssignment (ctx : EnvContext) (entry : Text × Text) : Assignment :=
  ⟨entry.1, fun e => expanded ctx.assetName e ctx.nowIso entry.2⟩

/-- The value of the variable is taken as one path. -/
def prependAssignment (ctx : EnvContext) (entry : Text × List Text) : Assignment :=
  ⟨realKey ctx entry.1, fun e => [ctx.pathsep].intercalate (dedup (expandedList ctx e entry ++
    if valueOf ctx e entry = [] then [] else [valueOf ctx e entry]))⟩

def assignments (ctx : EnvContext) (ops : EnvOps) : List Assignment :=
  (ops.set.getD []).map (setAssignment ctx) ++ (ops.prepend.getD []).map (prependAssignment ctx)

def assign (e : Env) (a : Assignment) : Env := Function.update e a.key (some (a.value e))

/-- Made in both environments, the last assignment of each variable gives it the same value. -/
def LastAgree : List Assignment → Env → Env → Prop
  | [], _, _ => True
  | a :: as, e, e' =>
    (a.key ∉ as.map Assignment.key → a.value e = a.value e') ∧ LastAgree as (assign e a) (assign e' a)

/-- What the entries leave that do not append. -/
def assigned (ctx : EnvContext) (ops : EnvOps) (e : Env) : Env :=
  (assignments ctx ops).foldl assign (unsetKeys (ops.unset.getD []) e)

/-- Of each variable, the last entry of `set` or `prepend` that is about it gives it the value once more
that it has given it, when all entries are gone through a second time. -/
def Settled (ctx : EnvContext) (osEnv : Env) (ops : Option EnvOps) : Prop :=
  ∀ o ∈ ops, LastAgree (assignments ctx o) (unsetKeys (o.unset.getD []) osEnv)
    (unsetKeys (o.unset.getD []) (assigned ctx o osEnv))

theorem unsetKeys_eq_none_iff (ks : List Text) (result : Env) (k : Text) :
    unsetKeys ks result k = none ↔ k ∈ ks ∨ result k = none := by
  induction ks generalizing result with
  | nil => simp [unsetKeys]
  | cons x ks ih =>
    have hrest := ih (Function.update result x none)
    by_cases hx : k = x
    · subst hx
      simpa [unsetKeys] using hrest
    · simpa [unsetKeys, hx] using hrest

theorem foldl_assign_eq_none_iff (as : List Assignment) (e : Env) (k : Text) :
    as.foldl assign e k = none ↔ k ∉ as.map Assignment.key ∧ e k = none := by
  induction as generalizing e with
  | nil => simp
  | cons a as ih =>
    rw [List.foldl_cons, ih]
    by_cases ha : k = a.key
    · subst ha
      simp [assign]
    · simp [assign, ha]

theorem foldl_assign_other {as : List Assignment} {k : Text} (h : k ∉ as.map Assignment.key) (e : Env) :
    as.foldl assign e k = e k :=
  foldl_other Assignment.key (fun _ _ _ hk => Function.update_of_ne hk _ _) h e

theorem lastAgree_iff (as : List Assignment) (e e' : Env) :
    LastAgree as e e' ↔ ∀ k ∈ as.map Assignment.key, as.foldl assign e k = as.foldl assign e' k := by
  induction as generalizing e e' with
  | nil => simp [LastAgree]
  | cons a as ih =>
    rw [LastAgree, ih]
    simp only [List.foldl_cons, List.map_cons, List.mem_cons, forall_eq_or_imp]
    refine and_congr_left fun hrest => ?_
    by_cases hlater : a.key ∈ as.map Assignment.key
    · exact iff_of_true (absurd hlater) (hrest a.key hlater)
    · rw [foldl_assign_other hlater, foldl_assign_other hlater]
      simp [assign, hlater]

theorem foldlM_prependKey (ctx : EnvContext) (l : List (Text × List Text)) (e : Env) :
    l.foldlM (prependKey ctx) e = .ok ((l.map (prependAssignment ctx)).foldl assign e) := by
  induction l generalizing e with
  | nil => rfl
  | cons entry l ih =>
    rw [List.foldlM_cons, prependKey_eq]
    exact ih _

theorem foldlM_appendKey_ok_iff (ctx : EnvContext) (l : List (Text × List Text)) (e result : Env) :
    l.foldlM (appendKey ctx) e = .ok result ↔ l = [] ∧ result = e := by
  cases l with
  | nil => simp [pure, Except.pure, eq_comm]
  | cons entry l =>
    rw [List.foldlM_cons, appendKey_eq]
    simp [bind, Except.bind]

theorem applyOps_ok_iff (ctx : EnvContext) (e : Env) (ops : EnvOps) (result : Env) :
    applyOps ctx e (some ops) = .ok result ↔ ops.append.getD [] = [] ∧ result = assigned ctx ops e := by
  have hset : ((ops.set.getD []).map (setAssignment ctx)).foldl assign
      (unsetKeys (ops.unset.getD []) e) = afterSet ctx e ops := List.foldl_map
  rw [applyOps_eq, foldlM_prependKey, assigned, assignments, List.foldl_append, hset]
  exact foldlM_appendKey_ok_iff ctx _ _ result

theorem applyOps_isOk_iff (ctx : EnvContext) (e : Env) (ops : Option EnvOps) :
    (∃ result, applyOps ctx e ops = .ok result) ↔ NothingAppended ops := by
  cases ops with
  | none => exact iff_of_true ⟨e, rfl⟩ rfl
  | some ops =>
    simp only [applyOps_ok_iff]
    exact ⟨fun ⟨_, h, _⟩ => h, fun h => ⟨_, h, rfl⟩⟩

theorem applyOps_eq_none_iff {ctx : EnvContext} {e result : Env} {ops : Option EnvOps}
    (h : applyOps ctx e ops = .ok result) (k : Text) :
    result k = none ↔ k ∉ assignedBy ctx ops ∧ (k ∈ unsetBy ops ∨ e k = none) := by
  cases ops with
  | none =>
    cases h
    simp [assignedBy, unsetBy]
  | some ops =>
    obtain ⟨hnone, rfl⟩ := (applyOps_ok_iff ctx e ops result).mp h
    have hkeys : (assignments ctx ops).map Assignment.key = assignedBy ctx (some ops) := by
      simp only [assignments, assignedBy, Option.bind_some, hnone, List.map_nil, List.append_nil,
        List.map_append, List.map_map]
      rfl
    rw [assigned, foldl_assign_eq_none_iff, unsetKeys_eq_none_iff, hkeys]
    rfl

/-- Where nothing is appended, `Settled` says that it makes no difference whether the operations are
applied once or twice. -/
theorem settled_iff {ctx : EnvContext} {osEnv base : Env} {ops : Option EnvOps}
    (h : applyOps ctx osEnv ops = .ok base) : Settled ctx osEnv ops ↔ applyOps ctx base ops = .ok base := by
  cases ops with
  | none =>
    cases h
    exact iff_of_true (fun _ ho => by cases ho) rfl
  | some ops =>
    obtain ⟨hnone, rfl⟩ := (applyOps_ok_iff ctx osEnv ops base).mp h
    have hsame : ∀ k, k ∉ (assignments ctx ops).map Assignment.key →
        assigned ctx ops osEnv k = assigned ctx ops (assigned ctx ops osEnv) k := by
      intro k hk
      have hother : ∀ e, assigned ctx ops e k = unsetKeys (ops.unset.getD []) e k :=
        fun e => foldl_assign_other hk _
      rw [hother, hother]
      by_cases hunset : k ∈ ops.unset.getD []
      · rw [(unsetKeys_eq_none_iff _ _ k).mpr (Or.inl hunset),
          (unsetKeys_eq_none_iff _ _ k).mpr (Or.inl hunset)]
      · have hkeep : ∀ e : Env, unsetKeys (ops.unset.getD []) e k = e k := by
          intro e
          exact foldl_other id (fun _ _ _ h => Function.update_of_ne h _ _) (by simpa using hunset) e
        rw [hkeep, hkeep, hother, hkeep]
    rw [applyOps_ok_iff, and_iff_right hnone]
    have hall : Settled ctx osEnv (some ops) ↔ LastAgree (assignments ctx ops)
        (unsetKeys (ops.unset.getD []) osEnv)
        (unsetKeys (ops.unset.getD []) (assigned ctx ops osEnv)) := by
      simp [Settled]
    rw [hall, lastAgree_iff]
    constructor
    · intro hagree
      funext k
      by_cases hk : k ∈ (assignments ctx ops).map Assignment.key
      · exact hagree k hk
      · exact hsame k hk
    · intro heq k _
      exact congrFun heq k

def EnvContext.of (ctx : EnvContext) (asset : Asset) : EnvContext :=
  { ctx with assetName := some asset.name }

theorem intendedEnv_isOk_iff (ctx : EnvContext) (osEnv : Env) (spec : LauncherSpec) (asset : Asset) :
    (∃ env, intendedEnv ctx osEnv spec asset = .ok env) ↔
      NothingAppended (defaultsEnvOps spec) ∧ NothingAppended asset.env := by
  constructor
  · intro h
    obtain ⟨env, h⟩ := h
    obtain ⟨base, hbase, henv⟩ := bind_ok_iff.mp h
    exact ⟨(applyOps_isOk_iff _ _ _).mp ⟨base, hbase⟩, (applyOps_isOk_iff _ _ _).mp ⟨env, henv⟩⟩
  · intro h
    obtain ⟨base, hbase⟩ := (applyOps_isOk_iff (ctx.of asset) osEnv _).mpr h.1
    obtain ⟨env, henv⟩ := (applyOps_isOk_iff (ctx.of asset) base _).mpr h.2
    exact ⟨env, bind_ok_iff.mpr ⟨base, hbase, henv⟩⟩

theorem intendedEnv_eq_none_iff {ctx : EnvContext} {osEnv env : Env} {spec : LauncherSpec} {asset : Asset}
    (h : intendedEnv ctx osEnv spec asset = .ok env) (k : Text) :
    env k = none ↔ LeftUnset ctx (defaultsEnvOps spec) asset.env k ∨
      (k ∉ assignedBy ctx asset.env ∧ k ∉ assignedBy ctx (defaultsEnvOps spec) ∧ osEnv k = none) := by
  obtain ⟨base, hbase, henv⟩ := bind_ok_iff.mp h
  have hlast := applyOps_eq_none_iff henv k
  have hfirst := applyOps_eq_none_iff hbase k
  change env k = none ↔ k ∉ assignedBy ctx asset.env ∧ (k ∈ unsetBy asset.env ∨ base k = none) at hlast
  change base k = none ↔ k ∉ assignedBy ctx (defaultsEnvOps spec) ∧
    (k ∈ unsetBy (defaultsEnvOps spec) ∨ osEnv k = none) at hfirst
  rw [hlast, hfirst, LeftUnset]
  tauto

theorem runnerEnv_eq_iff {osEnv env intended : Env} (hnone : ∀ k, env k = none ↔ intended k = none) :
    runnerEnv osEnv env = intended ↔ env = intended ∧ ∀ k, intended k = none → osEnv k = none := by
  constructor
  · intro h
    have hvalue : ∀ k, (env k).or (osEnv k) = intended k := fun k => congrFun h k
    constructor
    · funext k
      have hk := hvalue k
      cases henv : env k with
      | none => exact ((hnone k).mp henv).symm
      | some v => simpa [henv] using hk
    · intro k hk
      have henv := (hnone k).mpr hk
      simpa [henv, hk] using hvalue k
  · intro h
    obtain ⟨rfl, hos⟩ := h
    funext k
    cases henv : env k with
    | none => simp [runnerEnv, henv, hos k henv]
    | some v => simp [runnerEnv, henv]

/-- The monitor hands the intended environment to the runner if the asset has operations of its own;
if not, the defaults have been applied to it once more. -/
theorem childEnv_spec (ctx : EnvContext) (osEnv : Env) {spec : LauncherSpec} {asset : Asset}
    (hdefaults : NothingAppended (defaultsEnvOps spec)) (hown : NothingAppended asset.env) :
    ∃ merged intended, childEnv ctx osEnv spec asset = .ok (runnerEnv osEnv merged) ∧
      intendedEnv ctx osEnv spec asset = .ok intended ∧ (∀ k, merged k = none ↔ intended k = none) ∧
      (merged = intended ↔ (asset.env = none → Settled (ctx.of asset) osEnv (defaultsEnvOps spec))) := by
  obtain ⟨base, hbase⟩ := (applyOps_isOk_iff (ctx.of asset) osEnv _).mpr hdefaults
  have hintended : intendedEnv ctx osEnv spec asset = applyOps (ctx.of asset) base asset.env := by
    change (applyOps (ctx.of asset) osEnv _ >>= _) = _
    rw [hbase]
    rfl
  have hchild : childEnv ctx osEnv spec asset =
      (applyOps (ctx.of asset) base (effectiveAsset asset (defaultsOrEmpty spec.defaults)).env).map
        (runnerEnv osEnv) := by
    change ((applyOps (ctx.of asset) osEnv _ >>= _) >>= _) = _
    rw [hbase]
    rfl
  rw [hchild, hintended]
  cases henv : asset.env with
  | some ops =>
    obtain ⟨merged, hmerged⟩ := (applyOps_isOk_iff (ctx.of asset) base _).mpr hown
    rw [henv] at hmerged
    refine ⟨merged, merged, ?_, hmerged, fun _ => Iff.rfl, by simp⟩
    simp only [effectiveAsset, henv, hmerged]
    rfl
  | none =>
    have hsame : (effectiveAsset asset (defaultsOrEmpty spec.defaults)).env = defaultsEnvOps spec := by
      unfold effectiveAsset defaultsOrEmpty defaultsEnvOps
      rw [henv]
      cases spec.defaults <;> rfl
    obtain ⟨merged, hmerged⟩ := (applyOps_isOk_iff (ctx.of asset) base _).mpr hdefaults
    rw [hsame, hmerged]
    refine ⟨merged, base, rfl, rfl, ?_, ?_⟩
    · intro k
      rw [applyOps_eq_none_iff hmerged, applyOps_eq_none_iff hbase]
      tauto
    · rw [settled_iff hbase, hmerged, Except.ok.injEq]
      simp

theorem lastAgree_of_constant {as : List Assignment} (h : ∀ a ∈ as, ∀ e e', a.value e = a.value e')
    (e e' : Env) : LastAgree as e e' := by
  induction as generalizing e e' with
  | nil => trivial
  | cons a as ih =>
    exact ⟨fun _ => h a List.mem_cons_self e e', ih (fun x hx => h x (List.mem_cons_of_mem _ hx)) _ _⟩

theorem settled_of_plain {ctx : EnvContext} (osEnv : Env) {ops : EnvOps}
    (hprepend : ops.prepend.getD [] = [])
    (hplain : ∀ entry ∈ ops.set.getD [], find envOpen (fillIn ctx.assetName ctx.nowIso entry.2) = none) :
    Settled ctx osEnv (some ops) := by
  intro o ho
  cases ho
  refine lastAgree_of_constant (fun a ha e e' => ?_) _ _
  rw [assignments, hprepend, List.map_nil, List.append_nil] at ha
  obtain ⟨entry, hentry, rfl⟩ := List.mem_map.mp ha
  have hvalue : ∀ e : Env, expanded ctx.assetName e ctx.nowIso entry.2 =
      fillIn ctx.assetName ctx.nowIso entry.2 := fun e => scanFrom_of_none (hplain entry hentry)
  exact (hvalue e).trans (hvalue e').symm

/-- The process receives the intended environment exactly if nothing is to be appended, the launcher's
own environment sets no variable that is left unset, and the defaults, for an asset that has no
operations, can as well be applied twice. -/
theorem receivesEnv_iff (ctx : EnvContext) (osEnv : Env) (spec : LauncherSpec) (asset : Asset) :
    ReceivesEnv ctx osEnv spec asset ↔
      (NothingAppended (defaultsEnvOps spec) ∧ NothingAppended asset.env) ∧
        (∀ k, LeftUnset ctx (defaultsEnvOps spec) asset.env k → osEnv k = none) ∧
        (asset.env = none → Settled (ctx.of asset) osEnv (defaultsEnvOps spec)) := by
  constructor
  · intro h
    obtain ⟨env, hchild, hintended⟩ := h.receives
    have happend := (intendedEnv_isOk_iff ctx osEnv spec asset).mp ⟨env, hintended⟩
    obtain ⟨merged, intended, hrun, hok, hnone, hsame⟩ := childEnv_spec ctx osEnv happend.1 happend.2
    have hrunner : runnerEnv osEnv merged = intended :=
      (Except.ok.inj (hrun.symm.trans hchild)).trans (Except.ok.inj (hintended.symm.trans hok))
    obtain ⟨heq, hos⟩ := (runnerEnv_eq_iff hnone).mp hrunner
    refine ⟨happend, ?_, hsame.mp heq⟩
    intro k hk
    exact hos k ((intendedEnv_eq_none_iff hok k).mpr (Or.inl hk))
  · intro h
    obtain ⟨happend, hunset, htwice⟩ := h
    obtain ⟨merged, intended, hrun, hok, hnone, hsame⟩ := childEnv_spec ctx osEnv happend.1 happend.2
    have hos : ∀ k, intended k = none → osEnv k = none := by
      intro k hk
      rcases (intendedEnv_eq_none_iff hok k).mp hk with hleft | ⟨_, _, hos⟩
      · exact hunset k hleft
      · exact hos
    have hrunner := (runnerEnv_eq_iff hnone).mpr ⟨hsame.mpr htwice, hos⟩
    rw [hrunner] at hrun
    refine ⟨⟨intended, hrun, hok⟩, ?_⟩
    intro env k henv hk
    rw [← Except.ok.inj (hrun.symm.trans henv)]
    exact (intendedEnv_eq_none_iff hok k).mpr (Or.inl hk)

/-- The value of `PATH` in the result. -/
def pathIn (result : Except EnvError Env) : Option (Option Text) :=
  result.toOption.map fun env => env (lit "PATH")

def unsetsPath : Asset := ⟨lit "drone", some ⟨none, none, none, some [lit "PATH"]⟩, []⟩

def withoutEnv : Asset := ⟨lit "drone", none, []⟩

def prependsToPath : LauncherSpec :=
  ⟨some ⟨some ⟨none, some [(lit "PATH", [lit "/a"])], none, none⟩⟩, []⟩

/-- An asset that unsets `PATH` gets it all the same, and one without operations gets the path of the
defaults twice. -/
theorem unset_returns_defaults_repeat :
    pathIn (childEnv onLinux (pathOnly "/b") ⟨none, []⟩ unsetsPath) = some (some (lit "/b")) ∧
      pathIn (childEnv onLinux (pathOnly "/b") prependsToPath withoutEnv) =
        some (some (lit "/a:/a:/b")) ∧
      ¬ ReceivesEnv onLinux (pathOnly "/b") ⟨none, []⟩ unsetsPath ∧
      ¬ ReceivesEnv onLinux (pathOnly "/b") prependsToPath withoutEnv := by
  refine ⟨by decide, by decide, ?_, ?_⟩
  · intro h
    obtain ⟨env, hchild, hintended⟩ := h.receives
    have hpath := congrArg pathIn (hchild.trans hintended.symm)
    exact absurd hpath (by decide)
  · intro h
    obtain ⟨env, hchild, hintended⟩ := h.receives
    have hpath := congrArg pathIn (hchild.trans hintended.symm)
    exact absurd hpath (by decide)

end Launch
end HakoniwaCorePro
