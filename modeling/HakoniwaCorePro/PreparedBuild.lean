import HakoniwaCorePro.ResolvedManifest

/-!
# Preparing a build

`prepare_build_config` in `tools/hako.py`: a manifest is loaded and resolved, and the resolved one is
written. The numbers in it have been read from digits, so that they can be written as digits again.
-/

namespace HakoniwaCorePro
namespace BuildManifest

open Launch (Text lit)
open Fallible

/-- The configuration, and what is written into the resolved manifest. -/
def prepareBuildConfig (py : Python) (manifest manifestText nativeDefaults : Text) :
    Except HakoError (BuildConfig × Text) := do
  let raw ← loadSimpleYaml py manifest manifestText
  let cfg ← resolveConfig raw
  let text ← renderResolvedManifest py manifest nativeDefaults cfg none
  let text ← throughFile text
  return (cfg, text)

theorem digit_lt {py : Python} {c d : ℕ} (h : py.digit c = some d) : d < 10 := by
  unfold Python.digit at h
  split_ifs at h with hascii hdigit
  · cases h
    omega
  · obtain ⟨x, -, rfl⟩ := Option.map_eq_some_iff.mp h
    exact x.2

theorem digits_spec {py : Python} {text : Text} {digits : List ℕ} (h : py.digits text = some digits) :
    digits ≠ [] ∧ ∀ d ∈ digits, d < 10 := by
  fun_induction Python.digits py text generalizing digits with
  | case1 => cases h
  | case2 c rest hc => cases h
  | case3 c d hd =>
    cases h
    simp [digit_lt hd]
  | case4 c d hd rest ih =>
    obtain ⟨ds, hds, rfl⟩ := Option.map_eq_some_iff.mp h
    exact ⟨List.cons_ne_nil d ds, List.forall_mem_cons.mpr ⟨digit_lt hd, (ih hds).2⟩⟩
  | case5 c d hd rest hne hunderscore ih =>
    obtain ⟨ds, hds, rfl⟩ := Option.map_eq_some_iff.mp h
    exact ⟨List.cons_ne_nil d ds, List.forall_mem_cons.mpr ⟨digit_lt hd, (ih hds).2⟩⟩

theorem foldl_digits_lt {digits : List ℕ} (h : ∀ d ∈ digits, d < 10) :
    digits.foldl (fun n d => 10 * n + d) 0 < 10 ^ digits.length := by
  induction digits using List.reverseRecOn with
  | nil => simp
  | append_singleton digits d ih =>
    have hd := h d (by simp)
    have hrest := ih fun x hx => h x (List.mem_append_left _ hx)
    rw [List.foldl_append, List.length_append, List.length_singleton, pow_succ]
    simp only [List.foldl_cons, List.foldl_nil]
    omega

theorem converts_mono {py : Python} {m n : ℕ} (h : m ≤ n) (hn : py.converts n = true) :
    py.converts m = true := by
  unfold Python.converts at hn ⊢
  cases hlimit : py.digitLimit with
  | none => rfl
  | some limit =>
    rw [hlimit] at hn
    exact decide_eq_true (h.trans (of_decide_eq_true hn))

def Printable (py : Python) (n : ℤ) : Prop := py.converts (strNat n.natAbs).length = true

theorem nat_printable {py : Python} {text : Text} {n : ℕ} (h : py.nat text = some n) :
    py.converts (strNat n).length = true := by
  unfold Python.nat at h
  cases hdigits : py.digits text with
  | none =>
    rw [hdigits] at h
    cases h
  | some digits =>
    rw [hdigits] at h
    obtain ⟨hne, hlt⟩ := digits_spec hdigits
    have hconverts : py.converts digits.length = true := by
      by_contra hnot
      simp [hnot] at h
    simp only [hconverts, if_true, Option.some.injEq] at h
    subst h
    apply converts_mono _ hconverts
    rw [length_strNat, Nat.length_toDigits_le_iff (by decide) (List.length_pos_iff.mpr hne)]
    exact foldl_digits_lt hlt

theorem int_printable {py : Python} {text : Text} {n : ℤ} (h : py.int text = some n) : Printable py n := by
  unfold Python.int at h
  unfold Printable
  split at h
  · obtain ⟨m, hm, rfl⟩ := Option.map_eq_some_iff.mp h
    exact nat_printable hm
  · obtain ⟨m, hm, rfl⟩ := Option.map_eq_some_iff.mp h
    rw [Int.natAbs_neg]
    exact nat_printable hm
  · obtain ⟨m, hm, rfl⟩ := Option.map_eq_some_iff.mp h
    exact nat_printable hm

inductive AllPrintable (py : Python) : Yaml → Prop
  | null : AllPrintable py .null
  | bool (b : Bool) : AllPrintable py (.bool b)
  | int {n : ℤ} (h : Printable py n) : AllPrintable py (.int n)
  | str (s : Text) : AllPrintable py (.str s)
  | map {es : Entries} (h : ∀ e ∈ es, AllPrintable py e.2) : AllPrintable py (.map es)

theorem parseScalar_printable {py : Python} {text : Text} {v : Yaml} (h : parseScalar py text = .ok v) :
    AllPrintable py v := by
  unfold parseScalar at h
  simp only at h
  split at h
  · cases h
    exact .map fun e he => absurd he List.not_mem_nil
  split at h
  · cases h
    exact .bool true
  split at h
  · cases h
    exact .bool false
  split at h
  · cases h
    exact .null
  split at h
  · split at h
    · cases h
    split at h
    · split at h
      · cases h
        exact .str _
      · cases h
    · cases h
      exact .str _
  · split at h
    · next n hn =>
      cases h
      exact .int (int_printable hn)
    · cases h
      exact .str _

theorem insertAt_printable {py : Python} {v : Yaml} (hv : AllPrintable py v) (key : Text) {path : List Text}
    {es : Entries} (h : ∀ e ∈ es, AllPrintable py e.2) :
    ∀ e ∈ insertAt path key v es, AllPrintable py e.2 := by
  induction path generalizing es with
  | nil =>
    intro e he
    rcases List.mem_append.mp he with he | he
    · exact h e he
    · rw [List.mem_singleton.mp he]
      exact hv
  | cons k path ih =>
    intro e he
    obtain ⟨x, hx, rfl⟩ := List.mem_map.mp he
    have hvalue := h x hx
    by_cases hk : x.1 = k
    · simp only [if_pos hk]
      cases hx2 : x.2 with
      | map sub =>
        rw [hx2] at hvalue
        cases hvalue with
        | map hsub => exact .map (ih hsub)
      | _ => rwa [hx2] at hvalue
    · simpa only [if_neg hk] using hvalue

theorem loaded_printable {py : Python} {path text : Text} {raw : Entries}
    (h : loadSimpleYaml py path text = .ok raw) : ∀ e ∈ raw, AllPrintable py e.2 := by
  obtain ⟨st, hread, rfl⟩ := loadSimpleYaml_ok_iff.mp h
  refine readLines_invariant (I := fun st => ∀ e ∈ st.root, AllPrintable py e.2) ?_ ?_ hread
  · intro lineno st raw st' hst hline
    cases hline with
    | empty hempty => exact hst
    | item hitem hstack hnew hvalue => exact insertAt_printable (parseScalar_printable hvalue) _ hst
  · intro e he
    cases he

theorem resolveLimit_entry {es : Entries} {key : Text} {n : {n : ℤ // 0 < n}}
    (h : resolveLimit es key = .ok n) : entry key es = some (.int n.1) := by
  unfold resolveLimit at h
  split at h
  · next m hm =>
    split at h
    · cases h
      exact hm
    · cases h
  · cases h

theorem resolveLimits_entries {es : Entries} {keys : List Text} {l : Limits keys}
    (h : resolveLimits es keys = .ok l) : ∀ x ∈ l.1, entry x.1 es = some (.int x.2.1) := by
  induction keys with
  | nil =>
    cases h
    intro x hx
    cases hx
  | cons key keys ih =>
    obtain ⟨n, hn, h⟩ := bind_ok_iff.mp h
    obtain ⟨rest, hrest, h⟩ := bind_ok_iff.mp h
    cases h
    intro x hx
    rcases List.mem_cons.mp hx with rfl | hx
    · exact resolveLimit_entry hn
    · exact ih hrest x hx

theorem resolveConfig_limits {raw : Entries} {cfg : BuildConfig} (h : resolveConfig raw = .ok cfg) :
    ∃ limits, entry (lit "limits") raw = some (.map limits) ∧
      resolveLimits limits limitKeys = .ok cfg.limits := by
  obtain ⟨_, -, h⟩ := bind_ok_iff.mp h
  obtain ⟨_, -, h⟩ := bind_ok_iff.mp h
  obtain ⟨_, -, h⟩ := bind_ok_iff.mp h
  obtain ⟨limits, hlimits, h⟩ := bind_ok_iff.mp h
  obtain ⟨_, -, h⟩ := bind_ok_iff.mp h
  obtain ⟨_, -, h⟩ := bind_ok_iff.mp h
  obtain ⟨resolved, hresolved, h⟩ := bind_ok_iff.mp h
  obtain ⟨_, -, h⟩ := bind_ok_iff.mp h
  obtain ⟨_, -, h⟩ := bind_ok_iff.mp h
  obtain ⟨_, -, h⟩ := bind_ok_iff.mp h
  cases h
  refine ⟨limits, ?_, hresolved⟩
  cases hentry : entry (lit "limits") raw with
  | none =>
    rw [hentry] at hlimits
    cases hlimits
  | some v =>
    rw [hentry] at hlimits
    cases v with
    | map es =>
      cases hlimits
      rfl
    | _ => cases hlimits

theorem mem_of_entry {key : Text} {v : Yaml} {es : Entries} (h : entry key es = some v) : (key, v) ∈ es := by
  induction es with
  | nil => cases h
  | cons e es ih =>
    rw [entry] at h
    split at h
    · next hk =>
      cases h
      rw [← hk]
      exact List.mem_cons_self
    · exact List.mem_cons_of_mem e (ih h)

theorem converted_of_loaded {py : Python} {path text : Text} {raw : Entries} {cfg : BuildConfig}
    (hload : loadSimpleYaml py path text = .ok raw) (hresolve : resolveConfig raw = .ok cfg) :
    Converted py cfg := by
  obtain ⟨limits, hentry, hlimits⟩ := resolveConfig_limits hresolve
  intro limit hlimit
  have hmapping := loaded_printable hload _ (mem_of_entry hentry)
  cases hmapping with
  | map hall =>
    have hint := hall _ (mem_of_entry (resolveLimits_entries hlimits limit hlimit))
    cases hint with
    | int hprintable => exact hprintable

theorem prepared_records_iff {py : Python} {manifest manifestText nativeDefaults text : Text}
    {cfg : BuildConfig} (h : prepareBuildConfig py manifest manifestText nativeDefaults = .ok (cfg, text))
    (path : Text) :
    (∃ doc, loadSimpleYaml py path text = .ok doc ∧ Records manifest nativeDefaults cfg none doc) ↔
      Storable manifest ∧ Storable nativeDefaults := by
  obtain ⟨raw, hload, h⟩ := bind_ok_iff.mp h
  obtain ⟨cfg', hresolve, h⟩ := bind_ok_iff.mp h
  obtain ⟨rendered, hrender, h⟩ := bind_ok_iff.mp h
  obtain ⟨file, hfile, h⟩ := bind_ok_iff.mp h
  cases h
  have hrecorded : recorded py path manifest nativeDefaults cfg none = loadSimpleYaml py path text := by
    unfold recorded
    rw [hrender]
    change (throughFile rendered >>= fun text => loadSimpleYaml py path text) = _
    rw [hfile]
    rfl
  rw [← hrecorded]
  constructor
  · intro hread
    obtain ⟨doc, hdoc, -⟩ := hread
    exact storable_of_recorded hdoc
  · intro hstorable
    exact ⟨_, recorded_of_storable path (converted_of_loaded hload hresolve) hstorable.1 hstorable.2,
      manifestBlocks_records manifest nativeDefaults cfg⟩

end BuildManifest
end HakoniwaCorePro
