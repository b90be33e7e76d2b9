import HakoniwaCorePro.Fallible
import HakoniwaCorePro.LaunchSpec
import HakoniwaCorePro.PathList
import HakoniwaCorePro.Runs

/-!
# Merging environments

`envmerge.py`: templates are expanded, and the four kinds of operations are applied to an environment
in their order. What the platform decides and the clock are in the context.
-/

namespace HakoniwaCorePro
namespace Launch

open Fallible PathList Runs

inductive EnvError
  | typeError | endless
  deriving DecidableEq

abbrev Env := Text → Option Text

/-- The arguments of a call, and what it takes from the platform. -/
structure EnvContext where
  assetName : Option Text
  nowIso : Option Text
  /-- What the clock shows when the list of a key is expanded. -/
  now : Text → Text
  /-- `platform.system().lower()` -/
  sysname : Text
  /-- `os.pathsep` -/
  pathsep : ℕ

def libEnvKey (sysname : Text) : Text :=
  if sysname = lit "darwin" then lit "DYLD_LIBRARY_PATH"
  else if sysname = lit "linux" then lit "LD_LIBRARY_PATH"
  else lit "PATH"

/-- `str.find` from the start; a position in the text. -/
def find (pattern : Text) : Text → Option ℕ
  | [] => if pattern = [] then some 0 else none
  | c :: cs => if pattern.isPrefixOf (c :: cs) then some 0 else (find pattern cs).map (· + 1)

/-- `out.find(pattern, idx)` -/
def findFrom (pattern out : Text) (idx : ℕ) : Option ℕ := (find pattern (out.drop idx)).map (idx + ·)

/-- `str.replace`, of the text behind the next `skip` characters. -/
def replaceFrom (old new : Text) : ℕ → Text → Text
  | _, [] => []
  | skip + 1, _ :: cs => replaceFrom old new skip cs
  | 0, c :: cs =>
    if old.isPrefixOf (c :: cs) then new ++ replaceFrom old new (old.length - 1) cs
    else c :: replaceFrom old new 0 cs

def replace (old new s : Text) : Text := replaceFrom old new 0 s

def envOpen : Text := lit "$\x7bENV:"
def envClose : Text := lit "\x7d"

/-- The loop of `_expand`, for at most `fuel` rounds. -/
def expandLoop (env : Env) : ℕ → Text → ℕ → Except EnvError Text
  | 0, _, _ => .error .endless
  | fuel + 1, out, idx =>
    match findFrom envOpen out idx with
    | none => .ok out
    | some start =>
      match findFrom envClose out start with
      | none => .ok out
      | some stop =>
        let key := (out.take stop).drop (start + 6)
        let repl := (env key).getD []
        expandLoop env fuel (out.take start ++ repl ++ out.drop (stop + 1)) (start + repl.length)

/-- The text with the name of the asset and the time filled in. -/
def fillIn (assetName timestamp : Option Text) (s : Text) : Text :=
  let out := match assetName with
    | some asset => replace (lit "$\x7basset\x7d") asset s
    | none => s
  match timestamp with
  | some time => replace (lit "$\x7btimestamp\x7d") time out
  | none => out

def expand (assetName : Option Text) (env : Env) (timestamp : Option Text) (s : Text) :
    Except EnvError Text :=
  let out := fillIn assetName timestamp s
  expandLoop env (out.length + 1) out 0

/-- `timestamp or datetime.now()…` -/
def timestampOr (timestamp : Option Text) (now : Text) : Text :=
  match timestamp with
  | some t => if t = [] then now else t
  | none => now

def expandList (assetName : Option Text) (env : Env) (timestamp : Option Text) (now : Text)
    (values : List Text) : Except EnvError (List Text) :=
  values.mapM fun v => expand assetName env (some (timestampOr timestamp now)) v

/-- The elements that are kept and those that have been seen. -/
def addElement (c : List Text × List Text) (p : Text) : List Text × List Text :=
  if p ≠ [] ∧ p ∉ c.2 then (c.1 ++ [p], p :: c.2) else c

def joinPathlike (pathsep : ℕ) (items : List Text) (base : Text) : Text :=
  let c := if base = [] then ([], []) else (base.splitOn pathsep).foldl addElement ([], [])
  [pathsep].intercalate (items.foldl addElement c).1

def unsetKeys (ks : List Text) (result : Env) : Env :=
  ks.foldl (fun result k => Function.update result k none) result

def setKeys (ctx : EnvContext) : List (Text × Text) → Env → Except EnvError Env
  | [], result => .ok result
  | (k, v) :: rest, result => do
    let value ← expand ctx.assetName result ctx.nowIso v
    setKeys ctx rest (Function.update result k (some value))

def realKey (ctx : EnvContext) (k : Text) : Text := if k = lit "lib_path" then libEnvKey ctx.sysname else k

/-- The body of the loop over `prepend`. -/
def prependKey (ctx : EnvContext) (result : Env) (entry : Text × List Text) : Except EnvError Env := do
  let key := realKey ctx entry.1
  let values ← expandList ctx.assetName result ctx.nowIso (ctx.now entry.1) entry.2
  let cur := (result key).getD []
  let items := values ++ if cur = [] then [] else [cur]
  return Function.update result key (some (joinPathlike ctx.pathsep items []))

/-- The body of the loop over `append`: `_join_pathlike` has no parameter `values`. -/
def appendKey (ctx : EnvContext) (result : Env) (entry : Text × List Text) : Except EnvError Env := do
  let _ ← expandList ctx.assetName result ctx.nowIso (ctx.now entry.1) entry.2
  .error .typeError

def applyOps (ctx : EnvContext) (baseEnv : Env) (envOps : Option EnvOps) : Except EnvError Env :=
  match envOps with
  | none => .ok baseEnv
  | some ops => do
    let result := unsetKeys (ops.unset.getD []) baseEnv
    let result ← setKeys ctx (ops.set.getD []) result
    let result ← (ops.prepend.getD []).foldlM (prependKey ctx) result
    (ops.append.getD []).foldlM (appendKey ctx) result

/-- The text behind the next `skip` characters, with what stands for variables replaced from left to
right; a variable that is not closed ends the replacing. -/
def scanFrom (env : Env) : ℕ → Text → Text
  | _, [] => []
  | skip + 1, _ :: cs => scanFrom env skip cs
  | 0, c :: cs =>
    if envOpen.isPrefixOf (c :: cs) then
      match find envClose (c :: cs) with
      | none => c :: cs
      | some stop => (env (((c :: cs).take stop).drop 6)).getD [] ++ scanFrom env stop cs
    else c :: scanFrom env 0 cs

def expanded (assetName : Option Text) (env : Env) (timestamp : Option Text) (s : Text) : Text :=
  scanFrom env 0 (fillIn assetName timestamp s)

def setKey (ctx : EnvContext) (result : Env) (entry : Text × Text) : Env :=
  Function.update result entry.1 (some (expanded ctx.assetName result ctx.nowIso entry.2))

def expandedList (ctx : EnvContext) (result : Env) (entry : Text × List Text) : List Text :=
  entry.2.map (expanded ctx.assetName result (some (timestampOr ctx.nowIso (ctx.now entry.1))))

def valueOf (ctx : EnvContext) (result : Env) (entry : Text × List Text) : Text :=
  (result (realKey ctx entry.1)).getD []

/-- The new paths before those of the value. -/
def expectedPrepend (ctx : EnvContext) (result : Env) (entry : Text × List Text) : Env :=
  Function.update result (realKey ctx entry.1) (some ([ctx.pathsep].intercalate
    (dedup (expandedList ctx result entry ++ (valueOf ctx result entry).splitOn ctx.pathsep))))

/-- The new paths behind those of the value. -/
def expectedAppend (ctx : EnvContext) (result : Env) (entry : Text × List Text) : Env :=
  Function.update result (realKey ctx entry.1) (some ([ctx.pathsep].intercalate
    (dedup ((valueOf ctx result entry).splitOn ctx.pathsep ++ expandedList ctx result entry))))

def afterSet (ctx : EnvContext) (baseEnv : Env) (ops : EnvOps) : Env :=
  (ops.set.getD []).foldl (setKey ctx) (unsetKeys (ops.unset.getD []) baseEnv)

def expectedOps (ctx : EnvContext) (baseEnv : Env) (ops : EnvOps) : Env :=
  (ops.append.getD []).foldl (expectedAppend ctx)
    ((ops.prepend.getD []).foldl (expectedPrepend ctx) (afterSet ctx baseEnv ops))

def EnvOps.keys (ctx : EnvContext) (ops : EnvOps) : List Text :=
  ops.unset.getD [] ++ (ops.set.getD []).map Prod.fst ++
    (ops.prepend.getD []).map (fun entry => realKey ctx entry.1) ++
    (ops.append.getD []).map fun entry => realKey ctx entry.1

/-- The operations return the expected environment, each of the lists gives its variable the expected
value, and no other variable changes. -/
structure AppliesOps (ctx : EnvContext) (baseEnv : Env) (ops : EnvOps) : Prop where
  returns : applyOps ctx baseEnv (some ops) = .ok (expectedOps ctx baseEnv ops)
  prepends : Along (expectedPrepend ctx)
    (fun result entry => prependKey ctx result entry = .ok (expectedPrepend ctx result entry))
    (afterSet ctx baseEnv ops) (ops.prepend.getD [])
  appends : Along (expectedAppend ctx)
    (fun result entry => appendKey ctx result entry = .ok (expectedAppend ctx result entry))
    ((ops.prepend.getD []).foldl (expectedPrepend ctx) (afterSet ctx baseEnv ops)) (ops.append.getD [])
  others : ∀ k, k ∉ ops.keys ctx → expectedOps ctx baseEnv ops k = baseEnv k

/-- A list can be prepended to the value as a whole. -/
def PrependFits (ctx : EnvContext) (result : Env) (entry : Text × List Text) : Prop :=
  Fits ctx.pathsep (expandedList ctx result entry) (valueOf ctx result entry)

theorem find_spec {pattern s : Text} {k : ℕ} (hp : pattern ≠ []) (h : find pattern s = some k) :
    pattern.isPrefixOf (s.drop k) = true ∧ k < s.length := by
  induction s generalizing k with
  | nil => simp [find, hp] at h
  | cons c cs ih =>
    rw [find] at h
    split at h
    · next hhere =>
      cases h
      exact ⟨hhere, by simp⟩
    · obtain ⟨j, hj, rfl⟩ := Option.map_eq_some_iff.mp h
      obtain ⟨hopens, hlt⟩ := ih hj
      exact ⟨hopens, by simpa using hlt⟩

theorem envOpen_ne_nil : envOpen ≠ [] := by decide

theorem scanFrom_skip (env : Env) (n : ℕ) (s : Text) : scanFrom env n s = scanFrom env 0 (s.drop n) := by
  induction n generalizing s with
  | zero => rfl
  | succ n ih =>
    cases s with
    | nil => rfl
    | cons c cs => exact ih cs

theorem scanFrom_of_none {env : Env} {s : Text} (h : find envOpen s = none) : scanFrom env 0 s = s := by
  induction s with
  | nil => rfl
  | cons c cs ih =>
    rw [find] at h
    split at h
    · cases h
    · next hnot =>
      rw [scanFrom, if_neg hnot, ih (Option.map_eq_none_iff.mp h)]

theorem scanFrom_of_some {env : Env} {s : Text} {k : ℕ} (h : find envOpen s = some k) :
    scanFrom env 0 s = s.take k ++ scanFrom env 0 (s.drop k) := by
  induction s generalizing k with
  | nil => simp [find, envOpen_ne_nil] at h
  | cons c cs ih =>
    rw [find] at h
    split at h
    · cases h
      rfl
    · next hnot =>
      obtain ⟨j, hj, rfl⟩ := Option.map_eq_some_iff.mp h
      rw [scanFrom, if_neg hnot, ih hj]
      rfl

theorem scanFrom_of_prefix {env : Env} {s : Text} (h : envOpen.isPrefixOf s = true) :
    scanFrom env 0 s = match find envClose s with
      | none => s
      | some stop => (env ((s.take stop).drop 6)).getD [] ++ scanFrom env 0 (s.drop (stop + 1)) := by
  cases s with
  | nil => exact absurd h (by decide)
  | cons c cs =>
    rw [scanFrom, if_pos h]
    cases find envClose (c :: cs) with
    | none => rfl
    | some stop =>
      simp only [scanFrom_skip env stop, List.drop_succ_cons]

/-- Every round leaves less text behind the index, so the loop ends. -/
theorem expandLoop_eq (env : Env) {fuel : ℕ} {out : Text} {idx : ℕ} (hidx : idx ≤ out.length)
    (hfuel : out.length - idx < fuel) :
    expandLoop env fuel out idx = .ok (out.take idx ++ scanFrom env 0 (out.drop idx)) := by
  induction fuel generalizing out idx with
  | zero => omega
  | succ fuel ih =>
    rw [expandLoop, findFrom]
    cases hopen : find envOpen (out.drop idx) with
    | none =>
      simp only [Option.map_none]
      rw [scanFrom_of_none hopen, List.take_append_drop]
    | some k =>
      obtain ⟨hopens, hk⟩ := find_spec envOpen_ne_nil hopen
      rw [List.drop_drop] at hopens
      rw [List.length_drop] at hk
      simp only [Option.map_some, findFrom]
      rw [scanFrom_of_some hopen, List.drop_drop, scanFrom_of_prefix hopens]
      have htake : out.take idx ++ (out.drop idx).take k = out.take (idx + k) := (List.take_add).symm
      cases hclose : find envClose (out.drop (idx + k)) with
      | none =>
        simp only [Option.map_none]
        rw [← List.append_assoc, htake, List.take_append_drop]
      | some e =>
        simp only [Option.map_some]
        have hkey : (out.take (idx + k + e)).drop (idx + k + 6) = ((out.drop (idx + k)).take e).drop 6 := by
          rw [← List.drop_drop, List.drop_take, Nat.add_sub_cancel_left]
        rw [hkey]
        have hlength : ∀ repl : Text, (out.take (idx + k) ++ repl).length = idx + k + repl.length := by
          intro repl
          rw [List.length_append, List.length_take_of_le (by omega)]
        rw [ih (by rw [List.length_append, hlength]; omega)
          (by rw [List.length_append, hlength, List.length_drop]; omega)]
        rw [List.take_left' (hlength _), List.drop_left' (hlength _), ← htake, List.drop_drop]
        simp only [List.append_assoc, Nat.add_assoc]

theorem expand_eq (assetName : Option Text) (env : Env) (timestamp : Option Text) (s : Text) :
    expand assetName env timestamp s = .ok (expanded assetName env timestamp s) := by
  unfold expand expanded
  rw [expandLoop_eq env (Nat.zero_le _) (by omega)]
  rfl

theorem expandList_eq (ctx : EnvContext) (result : Env) (entry : Text × List Text) :
    expandList ctx.assetName result ctx.nowIso (ctx.now entry.1) entry.2 =
      .ok (expandedList ctx result entry) := by
  unfold expandList expandedList
  induction entry.2 with
  | nil => rfl
  | cons v vs ih =>
    rw [List.mapM_cons, expand_eq, ih]
    rfl

theorem setKeys_eq (ctx : EnvContext) (entries : List (Text × Text)) (result : Env) :
    setKeys ctx entries result = .ok (entries.foldl (setKey ctx) result) := by
  induction entries generalizing result with
  | nil => rfl
  | cons entry entries ih =>
    rw [setKeys, expand_eq]
    exact ih _

open FirstOccurrences in
theorem foldl_addElement (items : List Text) : ∀ {l : List Text} {c : List Text × List Text},
    Collected id (l.filter fun p => p ≠ []) c.1 c.2 →
      Collected id ((l ++ items).filter fun p => p ≠ []) (items.foldl addElement c).1
        (items.foldl addElement c).2 := by
  induction items with
  | nil =>
    intro l c h
    simpa using h
  | cons p items ih =>
    intro l c h
    have hstep : Collected id ((l ++ [p]).filter fun p => p ≠ []) (addElement c p).1 (addElement c p).2 := by
      unfold addElement
      rw [List.filter_append]
      by_cases hp : p = []
      · simpa [hp] using h
      · by_cases hseen : p ∈ c.2
        · simpa [hp, hseen] using h.skip (a := p) hseen
        · simpa [hp, hseen] using h.keep (a := p) hseen
    have hrest := ih hstep
    rwa [List.append_assoc, List.singleton_append] at hrest

theorem joinPathlike_eq (pathsep : ℕ) (items : List Text) (base : Text) :
    joinPathlike pathsep items base = [pathsep].intercalate (dedup (base.splitOn pathsep ++ items)) := by
  have hbase := foldl_addElement (if base = [] then [] else base.splitOn pathsep) (l := [])
    (c := ([], [])) FirstOccurrences.collected_nil
  have hitems := (foldl_addElement items hbase).kept_eq
  have hempty : dedup ((if base = [] then [] else base.splitOn pathsep) ++ items) =
      dedup (base.splitOn pathsep ++ items) := by
    split
    · next h => simp [h, dedup]
    · rfl
  unfold joinPathlike
  rw [← hempty]
  unfold dedup
  rw [← List.nil_append (if base = [] then [] else base.splitOn pathsep), ← hitems]
  split <;> rfl

theorem prependKey_eq (ctx : EnvContext) (result : Env) (entry : Text × List Text) :
    prependKey ctx result entry = .ok (Function.update result (realKey ctx entry.1)
      (some ([ctx.pathsep].intercalate (dedup (expandedList ctx result entry ++
        if valueOf ctx result entry = [] then [] else [valueOf ctx result entry]))))) := by
  unfold prependKey
  rw [expandList_eq]
  change Except.ok (Function.update result _ (some (joinPathlike ctx.pathsep _ []))) = _
  have hempty : ∀ items : List Text, dedup (([] : Text).splitOn ctx.pathsep ++ items) = dedup items := by
    intro items
    simp [dedup]
  rw [joinPathlike_eq, hempty]
  rfl

theorem prependKey_eq_expected_iff (ctx : EnvContext) (result : Env) (entry : Text × List Text) :
    prependKey ctx result entry = .ok (expectedPrepend ctx result entry) ↔ PrependFits ctx result entry := by
  rw [prependKey_eq, PrependFits, ← intercalate_whole_eq_pieces_iff, Except.ok.injEq]
  unfold expectedPrepend
  rw [(Function.update_injective result _).eq_iff, Option.some.injEq]

theorem appendKey_eq (ctx : EnvContext) (result : Env) (entry : Text × List Text) :
    appendKey ctx result entry = .error .typeError := by
  unfold appendKey
  rw [expandList_eq]
  rfl

theorem foldlM_of_along {β : Type} {f : Env → β → Except EnvError Env} {step : Env → β → Env} {e : Env}
    {l : List β} (h : Along step (fun e b => f e b = .ok (step e b)) e l) :
    l.foldlM f e = .ok (l.foldl step e) := by
  induction l generalizing e with
  | nil => rfl
  | cons b l ih =>
    rw [List.foldlM_cons, h.1]
    exact ih h.2

theorem along_congr {β : Type} {step : Env → β → Env} {P Q : Env → β → Prop} (h : ∀ e b, P e b ↔ Q e b)
    (e : Env) (l : List β) : Along step P e l ↔ Along step Q e l :=
  along_iff_of_invariant (I := fun _ => True) (fun _ _ _ _ => trivial) (fun e b _ => h e b) trivial

theorem foldl_other {β : Type} {step : Env → β → Env} (key : β → Text)
    (hstep : ∀ e b k, k ≠ key b → step e b k = e k) {k : Text} {l : List β} (hk : k ∉ l.map key) (e : Env) :
    l.foldl step e k = e k := by
  induction l generalizing e with
  | nil => rfl
  | cons b l ih =>
    rw [List.map_cons, List.mem_cons, not_or] at hk
    rw [List.foldl_cons, ih hk.2, hstep e b k hk.1]

theorem expectedOps_other (ctx : EnvContext) (baseEnv : Env) (ops : EnvOps) {k : Text}
    (hk : k ∉ ops.keys ctx) : expectedOps ctx baseEnv ops k = baseEnv k := by
  simp only [EnvOps.keys, List.mem_append, not_or] at hk
  obtain ⟨⟨⟨hunset, hset⟩, hprepend⟩, happend⟩ := hk
  unfold expectedOps afterSet unsetKeys
  rw [foldl_other _ (fun _ _ _ h => Function.update_of_ne h _ _) happend,
    foldl_other _ (fun _ _ _ h => Function.update_of_ne h _ _) hprepend,
    foldl_other _ (fun _ _ _ h => Function.update_of_ne h _ _) hset,
    foldl_other id (fun _ _ _ h => Function.update_of_ne h _ _) (by simpa using hunset)]

theorem applyOps_eq (ctx : EnvContext) (baseEnv : Env) (ops : EnvOps) :
    applyOps ctx baseEnv (some ops) =
      (ops.prepend.getD []).foldlM (prependKey ctx) (afterSet ctx baseEnv ops) >>= fun result =>
        (ops.append.getD []).foldlM (appendKey ctx) result := by
  simp only [applyOps, setKeys_eq]
  rfl

/-- Nothing can be appended, and prepending is right exactly where every value fits. -/
theorem appliesOps_iff (ctx : EnvContext) (baseEnv : Env) (ops : EnvOps) : AppliesOps ctx baseEnv ops ↔
    ops.append.getD [] = [] ∧
      Along (expectedPrepend ctx) (PrependFits ctx) (afterSet ctx baseEnv ops) (ops.prepend.getD []) := by
  rw [← along_congr (prependKey_eq_expected_iff ctx)]
  constructor
  · intro h
    refine ⟨?_, h.prepends⟩
    have hreturns := h.returns
    rw [applyOps_eq, bind_ok_iff] at hreturns
    obtain ⟨result, -, happend⟩ := hreturns
    cases hlist : ops.append.getD [] with
    | nil => rfl
    | cons entry rest =>
      rw [hlist, List.foldlM_cons, appendKey_eq] at happend
      cases happend
  · rintro ⟨hnone, hprepends⟩
    refine ⟨?_, hprepends, ?_, fun k hk => expectedOps_other ctx baseEnv ops hk⟩
    · rw [applyOps_eq, foldlM_of_along hprepends, hnone]
      unfold expectedOps
      rw [hnone]
      rfl
    · rw [hnone]
      trivial

/-- A Linux host on which only `PATH` is set. -/
def pathOnly (path : String) : Env := fun k => if k = lit "PATH" then some (lit path) else none

def onLinux : EnvContext := ⟨some (lit "drone"), some (lit "2026-01-01T00:00:00"), fun _ => [], lit "linux", 58⟩

/-- `/a` is put before `/a:/b` although it is in there, and appending it raises an exception. -/
theorem prepend_repeats_append_raises :
    ((applyOps onLinux (pathOnly "/a:/b")
        (some ⟨none, some [(lit "PATH", [lit "/a"])], none, none⟩)).toOption.map
        fun result => result (lit "PATH")) = some (some (lit "/a:/a:/b")) ∧
      (applyOps onLinux (pathOnly "/a:/b")
        (some ⟨none, none, some [(lit "PATH", [lit "/c"])], none⟩)).toOption.isNone ∧
      ¬ AppliesOps onLinux (pathOnly "/a:/b") ⟨none, some [(lit "PATH", [lit "/a"])], none, none⟩ ∧
      ¬ AppliesOps onLinux (pathOnly "/a:/b") ⟨none, none, some [(lit "PATH", [lit "/c"])], none⟩ := by
  refine ⟨by decide, by decide, ?_, ?_⟩
  · intro h
    have hfits := (prependKey_eq_expected_iff _ _ _).mp h.prepends.1
    exact absurd hfits (by unfold PrependFits; decide)
  · intro h
    have happend := (appendKey_eq _ _ _).symm.trans h.appends.1
    cases happend

end Launch
end HakoniwaCorePro
