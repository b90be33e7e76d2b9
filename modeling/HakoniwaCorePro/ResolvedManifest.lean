import HakoniwaCorePro.BuildConfig
import HakoniwaCorePro.YamlBlocks

/-!
# Resolved manifests

`render_resolved_manifest` in `tools/hako.py`, and what `load_simple_yaml` reads from its text.
-/

namespace HakoniwaCorePro
namespace BuildManifest

open Launch (Text lit)
open JsonString Fallible

/-- A value of the metadata: of what is no number, its `str`. -/
inductive PyValue
  | int (n : ℤ) | bool (b : Bool) | other (text : Text)

abbrev PythonBuild := Text → Option PyValue

def strInt (py : Python) (n : ℤ) : Except HakoError Text :=
  if py.converts (strNat n.natAbs).length then
    .ok (if n < 0 then 45 :: strNat n.natAbs else strNat n.natAbs)
  else .error .value

/-- A `bool` is an `int`. -/
def yamlScalar (py : Python) : PyValue → Except HakoError Text
  | .int n => strInt py n
  | .bool b => .ok (lit (if b then "True" else "False"))
  | .other text => .ok (quoted text)

def buildKeys : List Text :=
  [lit "implementation", lit "executable", lit "version", lit "major", lit "minor", lit "abi",
    lit "extension_suffix", lit "artifact_name"]

def limitLine (py : Python) (limit : Text × {n : ℤ // 0 < n}) : Except HakoError Text := do
  let value ← strInt py limit.2.1
  return lit "  " ++ limit.1 ++ lit ": " ++ value

def buildLine (py : Python) (build : PythonBuild) (key : Text) : Except HakoError Text := do
  let value ← yamlScalar py ((build key).getD (.other (lit "unknown")))
  return lit "    " ++ key ++ lit ": " ++ value

def resolvedLines (py : Python) : Option PythonBuild → Except HakoError (List Text)
  | none => .ok []
  | some build => do
    let lines ← buildKeys.mapM (buildLine py build)
    return lit "  resolved:" :: lines

def trueOrFalse (b : Bool) : Text := lit (if b then "true" else "false")

def renderResolvedManifest (py : Python) (manifestPath nativeDefaultsPath : Text) (cfg : BuildConfig)
    (pythonBuild : Option PythonBuild) : Except HakoError Text := do
  let manifest ← yamlScalar py (.other manifestPath)
  let nativeDefaults ← yamlScalar py (.other nativeDefaultsPath)
  let limits ← cfg.limits.1.mapM (limitLine py)
  let resolved ← resolvedLines py pythonBuild
  let lines := [lit "version: 1", lit "manifest: " ++ manifest, lit "native_defaults: " ++ nativeDefaults,
      lit "limits:"] ++ limits ++
    [lit "features:", lit "  callback_assets_shared: " ++ trueOrFalse cfg.callbackAssetsShared,
      lit "  core_shared: " ++ trueOrFalse cfg.coreShared, lit "python:",
      lit "  soabi: " ++ trueOrFalse cfg.soabi, lit "validation:",
      lit "  tests: " ++ trueOrFalse cfg.tests] ++ resolved
  return [10].intercalate lines ++ [10]

def isSurrogate (c : ℕ) : Bool := 0xD800 ≤ c ∧ c ≤ 0xDFFF

/-- What is in a file that is written and read in UTF-8, which has no surrogates. -/
def throughFile (text : Text) : Except HakoError Text :=
  if text.any isSurrogate then .error .unicode else .ok text

/-- The resolved manifest as it is read from the file `path` that it has been written to. -/
def recorded (py : Python) (path manifestPath nativeDefaultsPath : Text) (cfg : BuildConfig)
    (pythonBuild : Option PythonBuild) : Except HakoError Entries := do
  let text ← renderResolvedManifest py manifestPath nativeDefaultsPath cfg pythonBuild
  let text ← throughFile text
  loadSimpleYaml py path text

def itemAt (path : List Text) (key : Text) (es : Entries) : Option Yaml :=
  (mappingAt path es).bind (entry key)

def PyValue.toYaml : PyValue → Yaml
  | .int n => .int n
  | .bool b => .bool b
  | .other text => .str text

structure Records (manifestPath nativeDefaultsPath : Text) (cfg : BuildConfig)
    (pythonBuild : Option PythonBuild) (doc : Entries) : Prop where
  version : itemAt [] (lit "version") doc = some (.int 1)
  manifest : itemAt [] (lit "manifest") doc = some (.str manifestPath)
  native_defaults : itemAt [] (lit "native_defaults") doc = some (.str nativeDefaultsPath)
  limits : itemAt [] (lit "limits") doc = some (.map cfg.limitEntries)
  features : itemAt [] (lit "features") doc = some (.map
    [(lit "callback_assets_shared", .bool cfg.callbackAssetsShared), (lit "core_shared", .bool cfg.coreShared)])
  tests : itemAt [lit "validation"] (lit "tests") doc = some (.bool cfg.tests)
  soabi : itemAt [lit "python"] (lit "soabi") doc = some (.bool cfg.soabi)
  resolved : ∀ build, pythonBuild = some build → ∀ key ∈ buildKeys,
    itemAt [lit "python", lit "resolved"] key doc =
      some ((build key).getD (.other (lit "unknown"))).toYaml

def RoundTrips (py : Python) (path manifestPath nativeDefaultsPath : Text) (cfg : BuildConfig)
    (pythonBuild : Option PythonBuild) : Prop :=
  ∃ doc, recorded py path manifestPath nativeDefaultsPath cfg pythonBuild = .ok doc ∧
    Records manifestPath nativeDefaultsPath cfg pythonBuild doc

/-- No character at which a line ends although JSON leaves it as it is, and none that UTF-8 lacks. -/
def Storable (s : Text) : Prop :=
  ∀ c ∈ s, c ≠ 0x85 ∧ c ≠ 0x2028 ∧ c ≠ 0x2029 ∧ isSurrogate c = false

def limitField (limit : Text × {n : ℤ // 0 < n}) : Field :=
  ⟨limit.1, 32 :: strNat limit.2.1.natAbs, .int limit.2.1⟩

def boolField (key : Text) (b : Bool) : Field := ⟨key, lit (if b then " true" else " false"), .bool b⟩

def pathField (key path : Text) : Field := ⟨key, 32 :: quoted path, .str path⟩

def versionBlock : Block := .single ⟨lit "version", lit " 1", .int 1⟩

def configBlocks (cfg : BuildConfig) : List Block :=
  [.mapping (lit "limits") (cfg.limits.1.map limitField),
    .mapping (lit "features") [boolField (lit "callback_assets_shared") cfg.callbackAssetsShared,
      boolField (lit "core_shared") cfg.coreShared],
    .mapping (lit "python") [boolField (lit "soabi") cfg.soabi]]

def validationBlock (cfg : BuildConfig) : Block :=
  .mapping (lit "validation") [boolField (lit "tests") cfg.tests]

def manifestBlocks (manifestPath nativeDefaultsPath : Text) (cfg : BuildConfig) : List Block :=
  [versionBlock, .single (pathField (lit "manifest") manifestPath),
    .single (pathField (lit "native_defaults") nativeDefaultsPath)] ++ configBlocks cfg ++ [validationBlock cfg]

def manifestText (manifestPath nativeDefaultsPath : Text) (cfg : BuildConfig) (resolved : List Text) : Text :=
  unlines ((manifestBlocks manifestPath nativeDefaultsPath cfg).flatMap Block.lines ++ resolved)

/-- The interpreter converts the limit into digits, and back. -/
def Converted (py : Python) (cfg : BuildConfig) : Prop :=
  ∀ limit ∈ cfg.limits.1, py.converts (strNat limit.2.1.natAbs).length = true

theorem limitLine_ok_iff {py : Python} {limit : Text × {n : ℤ // 0 < n}} {line : Text} :
    limitLine py limit = .ok line ↔ py.converts (strNat limit.2.1.natAbs).length = true ∧
      line = written 2 (limitField limit).key (limitField limit).raw := by
  have hsign : ¬ limit.2.1 < 0 := not_lt.mpr limit.2.2.le
  unfold limitLine strInt
  rw [if_neg hsign]
  by_cases h : py.converts (strNat limit.2.1.natAbs).length = true
  · rw [if_pos h]
    have hline : lit "  " ++ limit.1 ++ lit ": " ++ strNat limit.2.1.natAbs =
        written 2 (limitField limit).key (limitField limit).raw := by
      simp only [List.append_assoc]
      rfl
    rw [← hline]
    simp only [h, true_and]
    exact ⟨fun he => (Except.ok.inj he).symm, fun he => congrArg Except.ok he.symm⟩
  · rw [if_neg h]
    constructor
    · intro he
      cases he
    · intro he
      exact absurd he.1 h

theorem limitLines_ok_iff {py : Python} {limits : List (Text × {n : ℤ // 0 < n})} {lines : List Text} :
    limits.mapM (limitLine py) = .ok lines ↔
      (∀ limit ∈ limits, py.converts (strNat limit.2.1.natAbs).length = true) ∧
        lines = limits.map fun limit => written 2 (limitField limit).key (limitField limit).raw := by
  rw [mapM_ok_iff]
  induction limits generalizing lines with
  | nil => simp
  | cons limit limits ih =>
    simp only [List.forall₂_cons_left_iff, ih]
    simp only [limitLine_ok_iff, List.forall_mem_cons, List.map_cons]
    constructor
    · intro h
      obtain ⟨line, rest, ⟨hline, rfl⟩, ⟨hrest, rfl⟩, rfl⟩ := h
      exact ⟨⟨hline, hrest⟩, rfl⟩
    · intro h
      exact ⟨_, _, ⟨h.1.1, rfl⟩, ⟨h.1.2, rfl⟩, h.2⟩

theorem intercalate_newline {lines : List Text} (h : lines ≠ []) :
    [10].intercalate lines ++ [10] = unlines lines := by
  induction lines with
  | nil => exact absurd rfl h
  | cons line lines ih =>
    cases lines with
    | nil => simp [unlines]
    | cons next lines =>
      have hrest := ih (List.cons_ne_nil next lines)
      rw [List.intercalate_cons_cons, List.append_assoc, hrest]
      simp [unlines]

theorem boolField_line (b : Bool) :
    lit "  callback_assets_shared: " ++ trueOrFalse b =
        written 2 (lit "callback_assets_shared") (boolField [] b).raw ∧
      lit "  core_shared: " ++ trueOrFalse b = written 2 (lit "core_shared") (boolField [] b).raw ∧
      lit "  soabi: " ++ trueOrFalse b = written 2 (lit "soabi") (boolField [] b).raw ∧
      lit "  tests: " ++ trueOrFalse b = written 2 (lit "tests") (boolField [] b).raw := by
  cases b <;> exact ⟨rfl, rfl, rfl, rfl⟩

theorem manifestBlocks_lines (manifestPath nativeDefaultsPath : Text) (cfg : BuildConfig) :
    (manifestBlocks manifestPath nativeDefaultsPath cfg).flatMap Block.lines =
      [lit "version: 1", lit "manifest: " ++ quoted manifestPath,
          lit "native_defaults: " ++ quoted nativeDefaultsPath, lit "limits:"] ++
        (cfg.limits.1.map fun limit => written 2 (limitField limit).key (limitField limit).raw) ++
        [lit "features:", lit "  callback_assets_shared: " ++ trueOrFalse cfg.callbackAssetsShared,
          lit "  core_shared: " ++ trueOrFalse cfg.coreShared, lit "python:",
          lit "  soabi: " ++ trueOrFalse cfg.soabi, lit "validation:",
          lit "  tests: " ++ trueOrFalse cfg.tests] := by
  rw [(boolField_line _).1, (boolField_line _).2.1, (boolField_line _).2.2.1, (boolField_line _).2.2.2]
  simp only [manifestBlocks, configBlocks, List.flatMap_append, List.flatMap_cons, List.flatMap_nil,
    Block.lines, List.map_map, List.append_assoc]
  rfl

theorem renderResolvedManifest_ok_iff {py : Python} {manifestPath nativeDefaultsPath : Text}
    {cfg : BuildConfig} {pythonBuild : Option PythonBuild} {text : Text} :
    renderResolvedManifest py manifestPath nativeDefaultsPath cfg pythonBuild = .ok text ↔
      Converted py cfg ∧ ∃ resolved, resolvedLines py pythonBuild = .ok resolved ∧
        text = manifestText manifestPath nativeDefaultsPath cfg resolved := by
  have hne : ∀ resolved : List Text,
      (manifestBlocks manifestPath nativeDefaultsPath cfg).flatMap Block.lines ++ resolved ≠ [] := by
    intro resolved
    simp [manifestBlocks, Block.lines, versionBlock]
  constructor
  · intro h
    obtain ⟨_, hmanifest, h⟩ := bind_ok_iff.mp h
    cases hmanifest
    obtain ⟨_, hnative, h⟩ := bind_ok_iff.mp h
    cases hnative
    obtain ⟨limits, hlimits, h⟩ := bind_ok_iff.mp h
    obtain ⟨hconverted, rfl⟩ := limitLines_ok_iff.mp hlimits
    obtain ⟨resolved, hresolved, h⟩ := bind_ok_iff.mp h
    refine ⟨hconverted, resolved, hresolved, ?_⟩
    rw [← Except.ok.inj h, manifestText, ← intercalate_newline (hne resolved), manifestBlocks_lines]
  · intro h
    obtain ⟨hconverted, resolved, hresolved, rfl⟩ := h
    refine bind_ok_iff.mpr ⟨_, rfl, bind_ok_iff.mpr ⟨_, rfl, bind_ok_iff.mpr ⟨_,
      limitLines_ok_iff.mpr ⟨hconverted, rfl⟩, bind_ok_iff.mpr ⟨resolved, hresolved, ?_⟩⟩⟩⟩
    rw [manifestText, ← intercalate_newline (hne resolved), manifestBlocks_lines]
    rfl

theorem quoted_ascii {s : Text} {c : ℕ} (h : c ∈ quoted s) : 32 ≤ c ∧ (c < 127 ∨ c ∈ s) := by
  simp only [quoted, List.mem_cons, List.mem_append, List.not_mem_nil, or_false] at h
  rcases h with rfl | h | rfl
  · exact ⟨by omega, Or.inl (by omega)⟩
  · exact mem_escaped h
  · exact ⟨by omega, Or.inl (by omega)⟩

/-- A character that is in a line and comes back from the file. -/
def Kept (c : ℕ) : Prop := isLineBreak c = false ∧ isSurrogate c = false

theorem kept_ascii {c : ℕ} (hlow : 32 ≤ c) (hhigh : c < 127) : Kept c := by
  unfold Kept isLineBreak isSurrogate
  simp only [decide_eq_false_iff_not]
  omega

theorem kept_quoted {s : Text} (hs : Storable s) {c : ℕ} (h : c ∈ quoted s) : Kept c := by
  obtain ⟨hlow, hascii | hmem⟩ := quoted_ascii h
  · exact kept_ascii hlow hascii
  · obtain ⟨h1, h2, h3, hsurrogate⟩ := hs c hmem
    refine ⟨?_, hsurrogate⟩
    unfold isLineBreak
    rw [decide_eq_false_iff_not]
    omega

theorem kept_written {indent : ℕ} {key raw : Text} (hkey : Word key) (hraw : ∀ c ∈ raw, Kept c) {c : ℕ}
    (h : c ∈ written indent key raw) : Kept c := by
  simp only [written, List.mem_append, List.mem_replicate, List.mem_cons] at h
  rcases h with ⟨_, rfl⟩ | h | rfl | h
  · exact kept_ascii (by omega) (by omega)
  · have hletter := hkey.2 c h
    exact kept_ascii (by omega) (by omega)
  · exact kept_ascii (by omega) (by omega)
  · exact hraw c h

theorem kept_boolField (key : Text) (b : Bool) : ∀ c ∈ (boolField key b).raw, Kept c := by
  have hascii : ∀ b : Bool, ∀ c ∈ lit (if b then " true" else " false"), 32 ≤ c ∧ c < 127 := by decide
  intro c hc
  exact kept_ascii (hascii b c hc).1 (hascii b c hc).2

theorem kept_limitField (limit : Text × {n : ℤ // 0 < n}) : ∀ c ∈ (limitField limit).raw, Kept c := by
  intro c hc
  rcases List.mem_cons.mp hc with rfl | hc
  · exact kept_ascii (by omega) (by omega)
  · have hdigit := strNat_digit hc
    exact kept_ascii (by omega) (by omega)

theorem kept_lines {py : Python} {b : Block} (hread : b.Readable py)
    (h : ∀ f ∈ b.fields, ∀ c ∈ f.raw, Kept c) : ∀ line ∈ b.lines, ∀ c ∈ line, Kept c := by
  intro line hline c hc
  cases b with
  | single f =>
    rw [List.mem_singleton.mp hline] at hc
    exact kept_written hread.word (h f List.mem_cons_self) hc
  | mapping key fields =>
    rcases List.mem_cons.mp hline with rfl | hline
    · exact kept_written hread.1 (fun x hx => absurd hx List.not_mem_nil) hc
    · obtain ⟨f, hf, rfl⟩ := List.mem_map.mp hline
      exact kept_written (hread.2.1 f hf).word (h f hf) hc

theorem boolField_readable (py : Python) {key : Text} (hkey : Word key) (b : Bool) :
    (boolField key b).Readable py where
  word := hkey
  tabless := by
    have htab : ∀ b : Bool, 9 ∉ lit (if b then " true" else " false") := by decide
    exact htab b
  plain := by simp [boolField]
  parsed := parseScalar_bool py b

theorem pathField_readable (py : Python) {key : Text} (hkey : Word key) (path : Text) :
    (pathField key path).Readable py where
  word := hkey
  tabless := by
    intro h
    rcases List.mem_cons.mp h with h | h
    · omega
    · have hlow := (quoted_ascii h).1
      omega
  plain := by simp [pathField]
  parsed := parseScalar_quoted py path

theorem limitField_readable {py : Python} {limit : Text × {n : ℤ // 0 < n}} (hkey : Word limit.1)
    (h : py.converts (strNat limit.2.1.natAbs).length = true) : (limitField limit).Readable py where
  word := hkey
  tabless := by
    intro h
    rcases List.mem_cons.mp h with h | h
    · omega
    · have hdigit := strNat_digit h
      omega
  plain := by simp [limitField]
  parsed := by
    have hvalue : (limit.2.1.natAbs : ℤ) = limit.2.1 := Int.natAbs_of_nonneg limit.2.2.le
    have hparsed := parseScalar_nat h
    rwa [hvalue] at hparsed

theorem converts_one (py : Python) : py.converts 1 = true := by
  unfold Python.converts
  cases py.digitLimit with
  | none => rfl
  | some limit => exact decide_eq_true (by have h := limit.2; omega)

theorem versionBlock_readable (py : Python) : versionBlock.Readable py where
  word := by decide
  tabless := by decide
  plain := by simp
  parsed := parseScalar_nat (n := 1) (converts_one py)

theorem forall_fields {P : Field → Prop} {manifestPath nativeDefaultsPath : Text} {cfg : BuildConfig}
    (hversion : ∀ f ∈ versionBlock.fields, P f) (hmanifest : P (pathField (lit "manifest") manifestPath))
    (hnative : P (pathField (lit "native_defaults") nativeDefaultsPath))
    (hlimit : ∀ limit ∈ cfg.limits.1, P (limitField limit))
    (hbool : ∀ key ∈ featureKeys ++ [lit "soabi", lit "tests"], ∀ b, P (boolField key b)) :
    ∀ b ∈ manifestBlocks manifestPath nativeDefaultsPath cfg, ∀ f ∈ b.fields, P f := by
  intro b hb f hf
  simp only [manifestBlocks, configBlocks, validationBlock, List.mem_append, List.mem_cons,
    List.not_mem_nil, or_false] at hb
  rcases hb with ((rfl | rfl | rfl) | rfl | rfl | rfl) | rfl
  · exact hversion f hf
  · rw [List.mem_singleton.mp hf]
    exact hmanifest
  · rw [List.mem_singleton.mp hf]
    exact hnative
  · obtain ⟨limit, hmem, rfl⟩ := List.mem_map.mp hf
    exact hlimit limit hmem
  · simp only [Block.fields, List.mem_cons, List.not_mem_nil, or_false] at hf
    rcases hf with rfl | rfl
    · exact hbool _ (by decide) _
    · exact hbool _ (by decide) _
  · rw [List.mem_singleton.mp hf]
    exact hbool _ (by decide) _
  · rw [List.mem_singleton.mp hf]
    exact hbool _ (by decide) _

theorem manifestBlocks_nodup (manifestPath nativeDefaultsPath : Text) (cfg : BuildConfig) :
    ∀ b ∈ manifestBlocks manifestPath nativeDefaultsPath cfg, (b.fields.map Field.key).Nodup := by
  have hlimits : (cfg.limits.1.map limitField).map Field.key = limitKeys := by
    rw [List.map_map]
    exact cfg.limits.2
  have hfeatures : featureKeys.Nodup := by decide
  intro b hb
  simp only [manifestBlocks, configBlocks, validationBlock, List.mem_append, List.mem_cons,
    List.not_mem_nil, or_false] at hb
  rcases hb with ((rfl | rfl | rfl) | rfl | rfl | rfl) | rfl
  case inl.inr.inl =>
    exact (congrArg List.Nodup hlimits).mpr limitKeys_nodup
  case inl.inr.inr.inl =>
    exact hfeatures
  all_goals exact List.nodup_singleton _

theorem manifestBlocks_readable {py : Python} (manifestPath nativeDefaultsPath : Text) {cfg : BuildConfig}
    (h : Converted py cfg) : ∀ b ∈ manifestBlocks manifestPath nativeDefaultsPath cfg, b.Readable py := by
  have hkeys : ∀ key ∈ [lit "version", lit "manifest", lit "native_defaults", lit "limits", lit "features",
    lit "python", lit "validation"], Word key := by decide
  have hlimitKeys : ∀ key ∈ limitKeys, Word key := by decide
  have hboolKeys : ∀ key ∈ featureKeys ++ [lit "soabi", lit "tests"], Word key := by decide
  have hversion : ∀ f ∈ versionBlock.fields, f.Readable py := by
    intro f hf
    rw [List.mem_singleton.mp hf]
    exact versionBlock_readable py
  have hlimit : ∀ limit ∈ cfg.limits.1, (limitField limit).Readable py := by
    intro limit hlimit
    apply limitField_readable (hlimitKeys _ _) (h limit hlimit)
    rw [← cfg.limits.2]
    exact List.mem_map_of_mem hlimit
  have hfields := forall_fields (P := fun f => f.Readable py) hversion
    (pathField_readable py (by decide) manifestPath) (pathField_readable py (by decide) nativeDefaultsPath)
    hlimit fun key hkey b => boolField_readable py (hboolKeys key hkey) b
  intro b hb
  exact Block.readable_of_fields (hkeys b.key (List.mem_map_of_mem (f := Block.key) hb)) (hfields b hb)
    (manifestBlocks_nodup _ _ cfg b hb)

theorem not_lineRead_cut {py : Python} {path key : Text} (hkey : Word key) (s : Text) {lineno : ℕ}
    {st st' : Reading} : ¬ LineRead py path lineno st (written 0 key (32 :: 34 :: escaped s)) st' := by
  have htab : 9 ∉ 32 :: 34 :: escaped s := by
    intro h
    simp only [List.mem_cons] at h
    rcases h with h | h | h
    · omega
    · omega
    · have hlow := (mem_escaped h).1
      omega
  have hline := lineEntry_word hkey path lineno 0 htab
  intro h
  cases h with
  | empty hempty => cases hline.symm.trans hempty
  | item hitem hstack hnew hvalue =>
    cases hline.symm.trans hitem
    exact parseScalar_cut py s _ hvalue

theorem unlines_cons (line : Text) (lines : List Text) : unlines (line :: lines) = line ++ 10 :: unlines lines := by
  simp [unlines]

theorem unlines_append (xs ys : List Text) : unlines (xs ++ ys) = unlines xs ++ unlines ys := List.flatMap_append

theorem unbroken_of_loaded {py : Python} {path s rest : Text} (before : List Text) (key : Text) {doc : Entries}
    (hkey : Word key) (hbefore : ∀ line ∈ before, ∀ c ∈ line, isLineBreak c = false)
    (h : loadSimpleYaml py path (unlines before ++ (written 0 key (32 :: quoted s) ++ rest)) = .ok doc) :
    ∀ c ∈ s, 127 ≤ c → isLineBreak c = false := by
  cases hfind : s.find? fun c => isLineBreak c && decide (127 ≤ c) with
  | none =>
    intro c hc hlow
    have hnot := List.find?_eq_none.mp hfind c hc
    simpa [hlow] using hnot
  | some b =>
    exfalso
    obtain ⟨hb, a, t, rfl, ha⟩ := List.find?_eq_some_iff_append.mp hfind
    simp only [Bool.and_eq_true, decide_eq_true_eq] at hb
    have hsplit : written 0 key (32 :: quoted (a ++ b :: t)) ++ rest =
        written 0 key (32 :: 34 :: escaped a) ++ b :: (escaped t ++ 34 :: rest) := by
      simp [written, quoted, escaped_split hb.2]
    have hline : ∀ c ∈ written 0 key (32 :: 34 :: escaped a), isLineBreak c = false := by
      intro c hc
      simp only [written, List.replicate_zero, List.nil_append, List.mem_append, List.mem_cons] at hc
      rcases hc with hc | rfl | rfl | rfl | hc
      · have hletter := hkey.2 c hc
        exact (kept_ascii (by omega) (by omega)).1
      · rfl
      · rfl
      · rfl
      · obtain ⟨hlow, hascii | hmem⟩ := mem_escaped hc
        · exact (kept_ascii hlow hascii).1
        · by_cases hhigh : 127 ≤ c
          · have hnot := ha c hmem
            simpa [hhigh] using hnot
          · exact (kept_ascii hlow (by omega)).1
    obtain ⟨st, hread, -⟩ := loadSimpleYaml_ok_iff.mp h
    rw [splitlines_unlines hbefore, hsplit, splitlines_break hline hb.1 (by omega)] at hread
    obtain ⟨n, s, s', hcut⟩ := readLines_mem hread (List.mem_append_right before List.mem_cons_self)
    exact not_lineRead_cut hkey a hcut

theorem recorded_ok_iff {py : Python} {path manifestPath nativeDefaultsPath : Text} {cfg : BuildConfig}
    {pythonBuild : Option PythonBuild} {doc : Entries} :
    recorded py path manifestPath nativeDefaultsPath cfg pythonBuild = .ok doc ↔
      Converted py cfg ∧ ∃ resolved, resolvedLines py pythonBuild = .ok resolved ∧
        (∀ c ∈ manifestText manifestPath nativeDefaultsPath cfg resolved, isSurrogate c = false) ∧
        loadSimpleYaml py path (manifestText manifestPath nativeDefaultsPath cfg resolved) = .ok doc := by
  have hfile : ∀ text : Text, (throughFile text >>= fun text => loadSimpleYaml py path text) = .ok doc ↔
      (∀ c ∈ text, isSurrogate c = false) ∧ loadSimpleYaml py path text = .ok doc := by
    intro text
    have hany : text.any isSurrogate = true ↔ ¬ ∀ c ∈ text, isSurrogate c = false := by simp
    unfold throughFile
    by_cases h : ∀ c ∈ text, isSurrogate c = false
    · rw [if_neg (fun ha => hany.mp ha h)]
      exact ⟨fun hload => ⟨h, hload⟩, fun hload => hload.2⟩
    · rw [if_pos (hany.mpr h)]
      constructor
      · intro he
        cases he
      · intro hload
        exact absurd hload.1 h
  constructor
  · intro h
    obtain ⟨text, hrender, h⟩ := bind_ok_iff.mp h
    obtain ⟨hconverted, resolved, hresolved, rfl⟩ := renderResolvedManifest_ok_iff.mp hrender
    exact ⟨hconverted, resolved, hresolved, (hfile _).mp h⟩
  · intro h
    obtain ⟨hconverted, resolved, hresolved, h⟩ := h
    exact bind_ok_iff.mpr ⟨_, renderResolvedManifest_ok_iff.mpr ⟨hconverted, resolved, hresolved, rfl⟩,
      (hfile _).mpr h⟩

theorem manifestText_eq (manifestPath nativeDefaultsPath : Text) (cfg : BuildConfig) (resolved : List Text) :
    ∃ lines, manifestText manifestPath nativeDefaultsPath cfg resolved =
      unlines [written 0 (lit "version") (lit " 1"), written 0 (lit "manifest") (32 :: quoted manifestPath),
        written 0 (lit "native_defaults") (32 :: quoted nativeDefaultsPath)] ++ unlines lines := by
  refine ⟨(configBlocks cfg ++ [validationBlock cfg]).flatMap Block.lines ++ resolved, ?_⟩
  rw [← unlines_append, manifestText, manifestBlocks, List.append_assoc, List.flatMap_append, List.append_assoc]
  rfl

theorem mem_quoted {s : Text} {c : ℕ} (h : c ∈ s) (hhigh : 127 ≤ c) : c ∈ quoted s := by
  obtain ⟨a, t, rfl⟩ := List.append_of_mem h
  simp [quoted, escaped_split hhigh]

theorem storable_of_kept {s : Text} (hbreak : ∀ c ∈ s, 127 ≤ c → isLineBreak c = false)
    (hsurrogate : ∀ c ∈ s, 127 ≤ c → isSurrogate c = false) : Storable s := by
  intro c hc
  by_cases hhigh : 127 ≤ c
  · have hline := hbreak c hc hhigh
    unfold isLineBreak at hline
    rw [decide_eq_false_iff_not] at hline
    exact ⟨by omega, by omega, by omega, hsurrogate c hc hhigh⟩
  · refine ⟨by omega, by omega, by omega, ?_⟩
    unfold isSurrogate
    rw [decide_eq_false_iff_not]
    omega

theorem kept_pathField (key : Text) {s : Text} (hs : Storable s) : ∀ c ∈ (pathField key s).raw, Kept c := by
  intro c hc
  rcases List.mem_cons.mp hc with rfl | hc
  · exact kept_ascii (by omega) (by omega)
  · exact kept_quoted hs hc

theorem kept_pathLine {key s : Text} (hkey : Word key) (hs : Storable s) :
    ∀ c ∈ written 0 key (32 :: quoted s), Kept c := by
  intro c hc
  exact kept_written hkey (kept_pathField key hs) hc

theorem storable_of_recorded {py : Python} {path manifestPath nativeDefaultsPath : Text} {cfg : BuildConfig}
    {pythonBuild : Option PythonBuild} {doc : Entries}
    (h : recorded py path manifestPath nativeDefaultsPath cfg pythonBuild = .ok doc) :
    Storable manifestPath ∧ Storable nativeDefaultsPath := by
  obtain ⟨-, resolved, -, hfile, hload⟩ := recorded_ok_iff.mp h
  obtain ⟨lines, htext⟩ := manifestText_eq manifestPath nativeDefaultsPath cfg resolved
  rw [htext] at hfile hload
  have hsurrogate : ∀ s ∈ [manifestPath, nativeDefaultsPath], ∀ c ∈ s, 127 ≤ c → isSurrogate c = false := by
    intro s hs c hc hhigh
    have hquoted := mem_quoted hc hhigh
    apply hfile c
    simp only [List.mem_cons, List.not_mem_nil, or_false] at hs
    rcases hs with rfl | rfl
    · simp [unlines, written, hquoted]
    · simp [unlines, written, hquoted]
  have hversion : ∀ c ∈ written 0 (lit "version") (lit " 1"), isLineBreak c = false := by decide
  have hmanifest : Storable manifestPath := by
    refine storable_of_kept ?_ (hsurrogate _ List.mem_cons_self)
    apply unbroken_of_loaded [written 0 (lit "version") (lit " 1")] (lit "manifest") (by decide)
      (by simpa using hversion)
    rw [unlines_cons, unlines_cons] at hload
    simpa [unlines] using hload
  refine ⟨hmanifest, storable_of_kept ?_ (hsurrogate _ (by simp))⟩
  apply unbroken_of_loaded [written 0 (lit "version") (lit " 1"),
    written 0 (lit "manifest") (32 :: quoted manifestPath)] (lit "native_defaults") (by decide)
  · intro line hline
    simp only [List.mem_cons, List.not_mem_nil, or_false] at hline
    rcases hline with rfl | rfl
    · exact hversion
    · exact fun c hc => (kept_pathLine (by decide) hmanifest c hc).1
  · simpa [unlines] using hload

theorem manifestLines_kept {py : Python} {manifestPath nativeDefaultsPath : Text} {cfg : BuildConfig}
    (hconverted : Converted py cfg) (hmanifest : Storable manifestPath) (hnative : Storable nativeDefaultsPath) :
    ∀ line ∈ (manifestBlocks manifestPath nativeDefaultsPath cfg).flatMap Block.lines, ∀ c ∈ line, Kept c := by
  intro line hline
  obtain ⟨b, hb, hline⟩ := List.mem_flatMap.mp hline
  refine kept_lines (manifestBlocks_readable _ _ hconverted b hb) ?_ line hline
  have hversion : ∀ f ∈ versionBlock.fields, ∀ c ∈ f.raw, 32 ≤ c ∧ c < 127 := by
    intro f hf
    rw [List.mem_singleton.mp hf]
    decide
  exact forall_fields (fun f hf c hc => kept_ascii (hversion f hf c hc).1 (hversion f hf c hc).2)
    (kept_pathField _ hmanifest) (kept_pathField _ hnative) (fun limit _ => kept_limitField limit)
    (fun key _ b => kept_boolField key b) b hb

theorem reads_manifest {py : Python} (path manifestPath nativeDefaultsPath : Text) {cfg : BuildConfig}
    (h : Converted py cfg) :
    Reads py path Reading.start ((manifestBlocks manifestPath nativeDefaultsPath cfg).flatMap Block.lines)
      ⟨(manifestBlocks manifestPath nativeDefaultsPath cfg).map Block.item, (validationBlock cfg).stack⟩ := by
  have hkeys : ([lit "version", lit "manifest", lit "native_defaults", lit "limits", lit "features",
    lit "python", lit "validation"] : List Text).Nodup := by decide
  exact reads_blocks (manifestBlocks_readable manifestPath nativeDefaultsPath h) rfl hkeys

theorem python_closed (manifestPath nativeDefaultsPath : Text) (cfg : BuildConfig) :
    Closed (lit "python") (.map [(lit "soabi", .bool cfg.soabi)])
      ⟨(manifestBlocks manifestPath nativeDefaultsPath cfg).map Block.item, (validationBlock cfg).stack⟩ where
  found := rfl
  notOpen := by
    have hopen : ∀ frame ∈ ([(0, [lit "validation"]), (-1, [])] : List (ℤ × List Text)),
        frame.2.head? ≠ some (lit "python") := by decide
    exact hopen

theorem recorded_resolved {py : Python} {path manifestPath nativeDefaultsPath : Text} {cfg : BuildConfig}
    {pythonBuild : Option PythonBuild} {doc : Entries}
    (h : recorded py path manifestPath nativeDefaultsPath cfg pythonBuild = .ok doc) (key : Text) :
    itemAt [lit "python", lit "resolved"] key doc = none := by
  obtain ⟨hmanifest, hnative⟩ := storable_of_recorded h
  obtain ⟨hconverted, resolved, -, -, hload⟩ := recorded_ok_iff.mp h
  obtain ⟨st, hread, rfl⟩ := loadSimpleYaml_ok_iff.mp hload
  have hkept := manifestLines_kept hconverted hmanifest hnative
  rw [manifestText, unlines_append, splitlines_unlines fun line hline c hc => (hkept line hline c hc).1,
    readLines_append, reads_manifest path manifestPath nativeDefaultsPath hconverted 1] at hread
  have hpython := (python_closed manifestPath nativeDefaultsPath cfg).readLines hread
  unfold itemAt
  rw [mappingAt, hpython.found]
  rfl

theorem recorded_of_storable {py : Python} (path : Text) {manifestPath nativeDefaultsPath : Text}
    {cfg : BuildConfig} (hconverted : Converted py cfg) (hmanifest : Storable manifestPath)
    (hnative : Storable nativeDefaultsPath) :
    recorded py path manifestPath nativeDefaultsPath cfg none =
      .ok ((manifestBlocks manifestPath nativeDefaultsPath cfg).map Block.item) := by
  have hkept := manifestLines_kept hconverted hmanifest hnative
  have hlines : splitlines (manifestText manifestPath nativeDefaultsPath cfg []) =
      (manifestBlocks manifestPath nativeDefaultsPath cfg).flatMap Block.lines := by
    have hsplit := splitlines_unlines (fun line hline c hc => (hkept line hline c hc).1) []
    rw [List.append_nil] at hsplit
    rw [manifestText, List.append_nil, hsplit]
    exact List.append_nil _
  refine recorded_ok_iff.mpr ⟨hconverted, [], rfl, ?_, loadSimpleYaml_ok_iff.mpr
    ⟨⟨(manifestBlocks manifestPath nativeDefaultsPath cfg).map Block.item, (validationBlock cfg).stack⟩, ?_, rfl⟩⟩
  · intro c hc
    rw [manifestText, List.append_nil] at hc
    obtain ⟨line, hline, hc⟩ := List.mem_flatMap.mp hc
    rcases List.mem_append.mp hc with hc | hc
    · exact (hkept line hline c hc).2
    · rw [List.mem_singleton.mp hc]
      rfl
  · rw [hlines]
    exact reads_manifest path manifestPath nativeDefaultsPath hconverted 1

theorem manifestBlocks_records (manifestPath nativeDefaultsPath : Text) (cfg : BuildConfig) :
    Records manifestPath nativeDefaultsPath cfg none
      ((manifestBlocks manifestPath nativeDefaultsPath cfg).map Block.item) where
  version := rfl
  manifest := rfl
  native_defaults := rfl
  limits := by
    have hitems : (cfg.limits.1.map limitField).map Field.item = cfg.limitEntries := by
      rw [List.map_map]
      rfl
    rw [← hitems]
    rfl
  features := rfl
  tests := rfl
  soabi := rfl
  resolved := by
    intro build h
    cases h

/-- A resolved manifest is read back exactly if there are no metadata, the interpreter converts the
limits, and the paths can be stored. -/
theorem roundTrips_iff (py : Python) (path manifestPath nativeDefaultsPath : Text) (cfg : BuildConfig)
    (pythonBuild : Option PythonBuild) :
    RoundTrips py path manifestPath nativeDefaultsPath cfg pythonBuild ↔
      pythonBuild = none ∧ Converted py cfg ∧ Storable manifestPath ∧ Storable nativeDefaultsPath := by
  constructor
  · intro h
    obtain ⟨doc, hdoc, hrecords⟩ := h
    refine ⟨?_, (recorded_ok_iff.mp hdoc).1, storable_of_recorded hdoc⟩
    cases pythonBuild with
    | none => rfl
    | some build =>
      have hsome := hrecords.resolved build rfl (lit "abi") (by decide)
      cases hsome.symm.trans (recorded_resolved hdoc (lit "abi"))
  · intro h
    obtain ⟨rfl, hconverted, hmanifest, hnative⟩ := h
    exact ⟨_, recorded_of_storable path hconverted hmanifest hnative, manifestBlocks_records _ _ cfg⟩

/-- An interpreter as it is started, which knows no digits but those of ASCII. -/
def plainPython : Python := ⟨some ⟨4300, by decide⟩, fun _ => none⟩

def smallConfig : BuildConfig :=
  ⟨⟨limitKeys.map fun key => (key, ⟨1, by decide⟩), rfl⟩, false, false, false, true⟩

def textAt (path : List Text) (key : Text) (result : Except HakoError Entries) : Option Text :=
  match result.toOption.bind (itemAt path key) with
  | some (.str s) => some s
  | _ => none

def messageOf : Except HakoError Entries → Option Text
  | .error (.config message) => some message
  | _ => none

def withMetadata : Except HakoError Entries :=
  recorded plainPython (lit "resolved-build.yaml") (lit "/a") (lit "/b") smallConfig (some fun _ => none)

def withSeparator : Except HakoError Entries :=
  recorded plainPython (lit "resolved-build.yaml") (47 :: 0x2028 :: lit "a") (lit "/b") smallConfig none

/-- Metadata are read below `validation`, and a path with a line separator in it is not read at all. -/
theorem metadata_misplaced_separator_unread :
    textAt [lit "validation", lit "resolved"] (lit "abi") withMetadata = some (lit "unknown") ∧
      textAt [lit "python", lit "resolved"] (lit "abi") withMetadata = none ∧
      messageOf withSeparator = some (lit "unterminated quoted scalar: \"/") ∧
      ¬ RoundTrips plainPython (lit "resolved-build.yaml") (lit "/a") (lit "/b") smallConfig
        (some fun _ => none) ∧
      ¬ RoundTrips plainPython (lit "resolved-build.yaml") (47 :: 0x2028 :: lit "a") (lit "/b") smallConfig
        none := by
  have hmissing : textAt [lit "python", lit "resolved"] (lit "abi") withMetadata = none := by decide +kernel
  have hmessage : messageOf withSeparator = some (lit "unterminated quoted scalar: \"/") := by decide +kernel
  refine ⟨by decide +kernel, hmissing, hmessage, ?_, ?_⟩
  · intro h
    obtain ⟨doc, hdoc, hrecords⟩ := h
    have hsome := hrecords.resolved _ rfl (lit "abi") (by decide)
    rw [withMetadata, hdoc, textAt] at hmissing
    change (match itemAt [lit "python", lit "resolved"] (lit "abi") doc with
      | some (.str s) => some s
      | _ => none) = none at hmissing
    rw [hsome] at hmissing
    cases hmissing
  · intro h
    obtain ⟨doc, hdoc, -⟩ := h
    rw [withSeparator, hdoc] at hmessage
    cases hmessage

end BuildManifest
end HakoniwaCorePro
