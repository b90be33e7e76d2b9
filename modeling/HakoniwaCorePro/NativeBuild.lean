import HakoniwaCorePro.NativeDefaults

/-!
# The limits of a native build

`tools/hako.py` writes the limits of a manifest into a defaults file, `build.bash` lets variables of the
environment take their place and hands them to CMake, and `CMakeLists.txt`, which reads the same file,
makes them compile definitions. On Windows `win-build.ps1` reads the file.
-/

namespace HakoniwaCorePro
namespace NativeBuild

open Launch (Text lit)
open BuildManifest Fallible

abbrev Limit := Text × {n : ℤ // 0 < n}

/-- The limits under the native keys, which are in the order of the manifest's. -/
def nativeLimits (cfg : BuildConfig) : List Limit := nativeKeys.zip (cfg.limits.1.map Prod.snd)

def nativeLine (py : Python) (limit : Limit) : Except HakoError Text := do
  let value ← strInt py limit.2.1
  return limit.1 ++ lit "=" ++ value

def headerLine : Text :=
  lit "# Generated by tools/hako.py from the selected user-facing build manifest."

def renderNativeDefaults (py : Python) (cfg : BuildConfig) : Except HakoError Text := do
  let lines ← (nativeLimits cfg).mapM (nativeLine py)
  return [10].intercalate (headerLine :: lines) ++ [10]

/-- The variables that may take the place of a default, in the order of the arguments. -/
def overridable : List (Text × Text) :=
  [(lit "ASSET_NUM", lit "HAKO_DATA_MAX_ASSET_NUM"), (lit "SERVICE_MAX", lit "HAKO_SERVICE_MAX"),
    (lit "RECV_EVENT_MAX", lit "HAKO_RECV_EVENT_MAX"),
    (lit "SERVICE_CLIENT_MAX", lit "HAKO_SERVICE_CLIENT_MAX"),
    (lit "CLIENT_NAMELEN_MAX", lit "HAKO_CLIENT_NAMELEN_MAX"),
    (lit "SERVICE_NAMELEN_MAX", lit "HAKO_SERVICE_NAMELEN_MAX"),
    (lit "CHANNEL_MAX", lit "HAKO_PDU_CHANNEL_MAX")]

def overridden (value floor default : Text) : Text :=
  if value ≠ [] ∧ testGt value floor then value else default

/-- `ASSET_NUM` can only raise its limit; the others take any positive number. -/
def effective (env : Text → Text) (vals : Defaults) (limit : Text × Text) : Text :=
  overridden (env limit.1) (if limit.1 = lit "ASSET_NUM" then vals limit.2 else lit "0") (vals limit.2)

/-- What separates the words of an expansion that is not quoted. -/
def isSeparator (c : ℕ) : Bool := c = 32 ∨ c = 9 ∨ c = 10

def splitWordsFrom : Text → Text → List Text
  | word, [] => if word = [] then [] else [word]
  | word, c :: rest =>
    if isSeparator c then
      if word = [] then splitWordsFrom [] rest else word :: splitWordsFrom [] rest
    else splitWordsFrom (word ++ [c]) rest

/-- The arguments `-DKEY=${...}` of `cmake`. -/
def cmakeArguments (env : Text → Text) (vals : Defaults) : List Text :=
  overridable.flatMap fun limit =>
    splitWordsFrom [] (lit "-D" ++ limit.2 ++ 61 :: effective env vals limit)

/-- `-D<var>=<value>` -/
def definitionOf : Text → Option (Text × Text)
  | 45 :: 68 :: rest =>
    match rest.dropWhile (· ≠ 61) with
    | _ :: value => some (rest.takeWhile (· ≠ 61), value)
    | [] => none
  | _ => none

abbrev Cache := Text → Option Text

def Cache.define (cache : Cache) (definition : Text × Text) : Cache :=
  Function.update cache definition.1 (some definition.2)

def cmakeCache (arguments : List Text) : Cache :=
  (arguments.filterMap definitionOf).foldl Cache.define fun _ => none

/-- One line of `hako_load_build_defaults`, or the message of its `FATAL_ERROR`. -/
def loadLine (line : Text) : Except Text (Option (Text × Text)) :=
  if trim line = [] ∨ (trim line).head? = some 35 then .ok none
  else
    match matchEntry (trim line) with
    | none => .error (lit "Invalid build default entry: " ++ trim line)
    | some e => .ok (some e)

/-- The variables `HAKO_DEFAULT_*`, of which those that are not set are empty. -/
def hakoLoadBuildDefaults (lines : List Text) : Except Text Defaults :=
  lines.foldlM (fun vals line => do return store vals (← loadLine line)) fun _ => []

def hakoSetCacheDefault (name default : Text) (cache : Cache) : Cache :=
  if cache name = none then cache.define (name, default) else cache

/-- `add_compile_definitions` of each limit. `strings` is CMake's `file(STRINGS)`. -/
def compileDefinitions (strings : Text → List Text) (text : Text) (cache : Cache) :
    Except Text (List (Text × Text)) := do
  let vals ← hakoLoadBuildDefaults (strings text)
  let cache := nativeKeys.foldl (fun cache key => hakoSetCacheDefault key (vals key) cache) cache
  return nativeKeys.map fun key => (key, (cache key).getD [])

/-- How PowerShell compares strings where it ignores their case. -/
structure PowerShell where
  sameKey : Text → Text → Bool
  refl : ∀ key, sameKey key key = true
  apart : ∀ j ∈ nativeKeys, ∀ k ∈ nativeKeys, sameKey j k = true → j = k

/-- `Get-Content` -/
def contentFrom : Text → Text → List Text
  | line, [] => if line = [] then [] else [line]
  | line, 13 :: 10 :: rest => line :: contentFrom [] rest
  | line, c :: rest =>
    if c = 10 ∨ c = 13 then line :: contentFrom [] rest else contentFrom (line ++ [c]) rest

/-- `Char.IsWhiteSpace` -/
def isWhiteSpace (c : ℕ) : Bool :=
  9 ≤ c ∧ c ≤ 13 ∨ c = 32 ∨ c = 0x85 ∨ c = 0xA0 ∨ c = 0x1680 ∨ 0x2000 ≤ c ∧ c ≤ 0x200A ∨
    c = 0x2028 ∨ c = 0x2029 ∨ c = 0x202F ∨ c = 0x205F ∨ c = 0x3000

def trimWhiteSpace (s : Text) : Text := (s.dropWhile isWhiteSpace).rdropWhile isWhiteSpace

/-- `[int]::TryParse` of a text without blanks around it. -/
def tryParse (s : Text) : Option ℤ :=
  let signed := splitSign s
  let n : ℤ := if signed.1 then -numeral signed.2 else numeral signed.2
  if signed.2 ≠ [] ∧ signed.2.all isDigit ∧ -2 ^ 31 ≤ n ∧ n < 2 ^ 31 then some n else none

/-- One line of `Get-BuildDefaults`. -/
def readWinLine (ps : PowerShell) (defaults : List (Text × ℤ)) (line : Text) :
    Except Text (List (Text × ℤ)) :=
  let trimmed := trimWhiteSpace line
  if trimmed = [] ∨ trimmed.head? = some 35 then .ok defaults
  else
    match trimmed.dropWhile (· ≠ 61) with
    | [] => .error (lit "Invalid build defaults entry: " ++ trimmed)
    | _ :: value =>
      let key := trimWhiteSpace (trimmed.takeWhile (· ≠ 61))
      if ¬ nativeKeys.any (ps.sameKey key) then .error (lit "Unknown build defaults key: " ++ key)
      else if defaults.any fun d => ps.sameKey key d.1 then
        .error (lit "Duplicate build defaults key: " ++ key)
      else
        match tryParse (trimWhiteSpace value) with
        | none => .error (lit "Build default must be a positive integer: " ++ key)
        | some n =>
          if n ≤ 0 then .error (lit "Build default must be a positive integer: " ++ key)
          else .ok (defaults ++ [(key, n)])

def getBuildDefaults (ps : PowerShell) (text : Text) : Except Text (List (Text × ℤ)) :=
  (contentFrom [] text).foldlM (readWinLine ps) []

def getDefaultValue (ps : PowerShell) (defaults : List (Text × ℤ)) (key : Text) : Except Text ℤ :=
  match defaults.find? fun d => ps.sameKey key d.1 with
  | none => .error (lit "Missing build default key: " ++ key)
  | some d => .ok d.2

/-- Text that is the same to all readers: printing characters, without those that CMake's lists give a
meaning to. -/
def Plain (s : Text) : Prop :=
  ∀ c ∈ s, 32 ≤ c ∧ c < 127 ∧ c ≠ 59 ∧ c ≠ 91 ∧ c ≠ 92 ∧ c ≠ 93

/-- Of lines of plain text, `file(STRINGS)` gives the lines. -/
def GivesLines (strings : Text → List Text) : Prop :=
  ∀ lines, (∀ line ∈ lines, Plain line) → strings (unlines lines) = lines

/-- In ASCII, case is ignored by comparing in lower case. -/
example : Nonempty PowerShell := ⟨fun j k => lower j = lower k, by simp, by decide⟩

theorem readLinesFrom_line {line : Text} (h : Plain line) (start rest : Text) :
    readLinesFrom start (line ++ 10 :: rest) = (start ++ line) :: readLinesFrom [] rest := by
  induction line generalizing start with
  | nil => simp [readLinesFrom]
  | cons c line ih =>
    have hc := h c List.mem_cons_self
    rw [List.cons_append, readLinesFrom, if_neg (by omega), if_neg (by omega),
      ih fun x hx => h x (List.mem_cons_of_mem c hx), List.append_assoc, List.singleton_append]

theorem readLines_unlines {lines : List Text} (h : ∀ line ∈ lines, Plain line) :
    readLines (unlines lines) = lines := by
  induction lines with
  | nil => rfl
  | cons line lines ih =>
    have hrest := ih fun x hx => h x (List.mem_cons_of_mem line hx)
    rw [readLines, unlines_cons, readLinesFrom_line (h line List.mem_cons_self), List.nil_append]
    exact congrArg (line :: ·) hrest

theorem contentFrom_line {line : Text} (h : Plain line) (start rest : Text) :
    contentFrom start (line ++ 10 :: rest) = (start ++ line) :: contentFrom [] rest := by
  induction line generalizing start with
  | nil =>
    rw [List.nil_append, contentFrom, if_pos (Or.inl rfl), List.append_nil]
    rintro _ ⟨⟩
  | cons c line ih =>
    have hc := h c List.mem_cons_self
    rw [List.cons_append, contentFrom, if_neg (by omega),
      ih fun x hx => h x (List.mem_cons_of_mem c hx), List.append_assoc, List.singleton_append]
    rintro _ ⟨⟩
    omega

theorem contentFrom_unlines {lines : List Text} (h : ∀ line ∈ lines, Plain line) :
    contentFrom [] (unlines lines) = lines := by
  induction lines with
  | nil => rfl
  | cons line lines ih =>
    rw [unlines_cons, contentFrom_line (h line List.mem_cons_self), List.nil_append,
      ih fun x hx => h x (List.mem_cons_of_mem line hx)]

theorem cut_visible {blank : ℕ → Bool} {s : Text} (h : ∀ c ∈ s, blank c = false) :
    (s.dropWhile blank).rdropWhile blank = s := by
  have hdrop : s.dropWhile blank = s := by
    cases s with
    | nil => rfl
    | cons c s =>
      rw [List.dropWhile_cons, h c List.mem_cons_self]
      rfl
  rw [hdrop, List.rdropWhile_eq_self_iff]
  intro hne
  rw [h _ (List.getLast_mem hne)]
  nofun

def entryLine (limit : Limit) : Text := limit.1 ++ 61 :: strNat limit.2.1.natAbs

def defaultLines (cfg : BuildConfig) : List Text := headerLine :: (nativeLimits cfg).map entryLine

theorem nativeLimits_keys (cfg : BuildConfig) : (nativeLimits cfg).map Prod.fst = nativeKeys := by
  have hlength : cfg.limits.1.length = limitKeys.length := by
    have hkeys := congrArg List.length cfg.limits.2
    rwa [List.length_map] at hkeys
  apply List.map_fst_zip
  rw [List.length_map, hlength]
  decide

theorem nativeLimits_known {cfg : BuildConfig} {limit : Limit} (h : limit ∈ nativeLimits cfg) :
    limit.1 ∈ nativeKeys := by
  rw [← nativeLimits_keys cfg]
  exact List.mem_map_of_mem h

theorem nativeKeys_nodup : nativeKeys.Nodup := by decide

theorem nativeLimits_nodup (cfg : BuildConfig) : ((nativeLimits cfg).map Prod.fst).Nodup := by
  rw [nativeLimits_keys]
  exact nativeKeys_nodup

theorem nativeLine_ok {py : Python} {limit : Limit}
    (h : py.converts (strNat limit.2.1.natAbs).length = true) :
    nativeLine py limit = .ok (entryLine limit) := by
  have hsign : ¬ limit.2.1 < 0 := not_lt.mpr limit.2.2.le
  have hint : strInt py limit.2.1 = .ok (strNat limit.2.1.natAbs) := by
    unfold strInt
    rw [if_pos h, if_neg hsign]
  unfold nativeLine
  rw [hint]
  change Except.ok (limit.1 ++ lit "=" ++ strNat limit.2.1.natAbs) = _
  rw [List.append_assoc]
  rfl

theorem renderNativeDefaults_ok {py : Python} {cfg : BuildConfig} (h : Converted py cfg) :
    renderNativeDefaults py cfg = .ok (unlines (defaultLines cfg)) := by
  have hlines : (nativeLimits cfg).mapM (nativeLine py) = .ok ((nativeLimits cfg).map entryLine) := by
    rw [mapM_ok_iff, List.forall₂_map_right_iff, List.forall₂_same]
    intro limit hlimit
    apply nativeLine_ok
    obtain ⟨x, hx, heq⟩ := List.mem_map.mp (List.of_mem_zip hlimit).2
    rw [← heq]
    exact h x hx
  unfold renderNativeDefaults
  rw [hlines]
  exact congrArg Except.ok (intercalate_newline (List.cons_ne_nil headerLine _))

theorem isKeyChar_range {c : ℕ} (h : isKeyChar c = true) :
    65 ≤ c ∧ c ≤ 90 ∨ 48 ≤ c ∧ c ≤ 57 ∨ c = 95 := of_decide_eq_true h

theorem entryLine_char {limit : Limit} (h : limit.1 ∈ nativeKeys) {c : ℕ} (hc : c ∈ entryLine limit) :
    isKeyChar c = true ∨ c = 61 := by
  rcases List.mem_append.mp hc with hc | hc
  · exact Or.inl ((nativeKeys_chars limit.1 h).2 c hc)
  · rcases List.mem_cons.mp hc with rfl | hc
    · exact Or.inr rfl
    · exact Or.inl (decide_eq_true (Or.inr (Or.inl (strNat_digit hc))))

theorem defaultLines_plain (cfg : BuildConfig) : ∀ line ∈ defaultLines cfg, Plain line := by
  intro line hline
  rcases List.mem_cons.mp hline with rfl | hline
  · unfold Plain headerLine
    decide
  · obtain ⟨limit, hlimit, rfl⟩ := List.mem_map.mp hline
    intro c hc
    rcases entryLine_char (nativeLimits_known hlimit) hc with hkey | rfl
    · have hrange := isKeyChar_range hkey
      omega
    · decide

theorem strNat_isDigit {n c : ℕ} (h : c ∈ strNat n) : isDigit c = true := decide_eq_true (strNat_digit h)

theorem entryLine_entry {limit : Limit} (h : limit.1 ∈ nativeKeys) :
    Entry (entryLine limit) limit.1 (strNat limit.2.1.natAbs) where
  line_eq := by
    apply cut_visible
    intro c hc
    simp only [isBlank, decide_eq_false_iff_not]
    rcases entryLine_char h hc with hkey | rfl
    · have hrange := isKeyChar_range hkey
      omega
    · decide
  known := h
  digits _ hc := strNat_isDigit hc
  positive := by
    have hpos := limit.2.2
    rw [numeral, foldl_strNat]
    omega

theorem headerLine_skipped : Skipped headerLine := by
  unfold Skipped
  decide

def defaultEntries (cfg : BuildConfig) : List (Option (Text × Text)) :=
  none :: (nativeLimits cfg).map fun limit => some (limit.1, strNat limit.2.1.natAbs)

theorem defaultLines_means (cfg : BuildConfig) :
    List.Forall₂ Means (defaultLines cfg) (defaultEntries cfg) := by
  have hheader : Means headerLine none := headerLine_skipped
  apply List.Forall₂.cons hheader
  rw [List.forall₂_map_left_iff, List.forall₂_map_right_iff, List.forall₂_same]
  exact fun limit hlimit => entryLine_entry (nativeLimits_known hlimit)

theorem defaultEntries_last {cfg : BuildConfig} {limit : Limit} (h : limit ∈ nativeLimits cfg) :
    LastOf (defaultEntries cfg) limit.1 (strNat limit.2.1.natAbs) := by
  have hnodup := nativeLimits_nodup cfg
  obtain ⟨before, after, hsplit⟩ := List.append_of_mem h
  rw [hsplit, List.map_append, List.map_cons] at hnodup
  have hafter : limit.1 ∉ after.map Prod.fst :=
    (List.nodup_cons.mp (List.nodup_append.mp hnodup).2.1).1
  refine ⟨none :: before.map (fun limit => some (limit.1, strNat limit.2.1.natAbs)),
    after.map fun limit => some (limit.1, strNat limit.2.1.natAbs), ?_, ?_⟩
  · rw [defaultEntries, hsplit, List.map_append, List.map_cons, List.cons_append]
  · intro v hv
    obtain ⟨other, hother, heq⟩ := List.mem_map.mp hv
    obtain ⟨hkey, -⟩ := Prod.mk.inj (Option.some.inj heq)
    exact hafter (hkey ▸ List.mem_map_of_mem hother)

/-- The values that the readers of digits take from the file. -/
def defaultValues (cfg : BuildConfig) : Defaults := (defaultEntries cfg).foldl store fun _ => []

theorem defaultValues_limit {cfg : BuildConfig} {limit : Limit} (h : limit ∈ nativeLimits cfg) :
    defaultValues cfg limit.1 = strNat limit.2.1.natAbs :=
  (foldl_store (strNat_ne_nil _)).mpr (defaultEntries_last h)

theorem readBuildDefaults_written (cfg : BuildConfig) :
    readBuildDefaults (unlines (defaultLines cfg)) = .ok (defaultValues cfg) := by
  have hlines : (readLines (unlines (defaultLines cfg))).mapM readLine = .ok (defaultEntries cfg) := by
    rw [readLines_unlines (defaultLines_plain cfg), mapM_ok_iff]
    exact (defaultLines_means cfg).imp fun _ _ h => readLine_ok_iff.mpr h
  have hpresent : checkPresent (defaultValues cfg) nativeKeys = .ok () := by
    rw [checkPresent_ok_iff, ← nativeLimits_keys cfg]
    intro key hkey
    obtain ⟨limit, hlimit, rfl⟩ := List.mem_map.mp hkey
    rw [defaultValues_limit hlimit]
    exact strNat_ne_nil _
  unfold readBuildDefaults
  rw [foldlM_eq_mapM, hlines]
  change (checkPresent (defaultValues cfg) nativeKeys >>= fun _ => Except.ok (defaultValues cfg)) = _
  rw [hpresent]
  rfl

theorem loadLine_means {line : Text} {e : Option (Text × Text)} (h : Means line e) :
    loadLine line = .ok e := by
  cases e with
  | none => exact if_pos h
  | some e =>
    have hskipped : ¬ (trim line = [] ∨ (trim line).head? = some 35) := entry_not_skipped h
    obtain ⟨hne, hchars⟩ := nativeKeys_chars e.1 h.known
    have hmatch : matchEntry (trim line) = some e :=
      matchEntry_some_iff.mpr ⟨h.line_eq, hne, hchars, ne_nil_of_positive h.positive, h.digits⟩
    unfold loadLine
    rw [if_neg hskipped, hmatch]

theorem hakoLoadBuildDefaults_means {lines : List Text} {es : List (Option (Text × Text))}
    (h : List.Forall₂ Means lines es) :
    hakoLoadBuildDefaults lines = .ok (es.foldl store fun _ => []) := by
  have hlines : lines.mapM loadLine = .ok es := mapM_ok_iff.mpr (h.imp fun _ _ => loadLine_means)
  unfold hakoLoadBuildDefaults
  rw [foldlM_eq_mapM, hlines]
  rfl

theorem splitWordsFrom_word {s : Text} (h : ∀ c ∈ s, isSeparator c = false) (word : Text) :
    splitWordsFrom word s = if word ++ s = [] then [] else [word ++ s] := by
  induction s generalizing word with
  | nil => simp [splitWordsFrom]
  | cons c s ih =>
    have hrest := ih (fun x hx => h x (List.mem_cons_of_mem c hx)) (word ++ [c])
    rw [splitWordsFrom, h c List.mem_cons_self, hrest]
    simp

theorem key_before_equals {key : Text} (h : ∀ c ∈ key, isKeyChar c = true) :
    ∀ c ∈ key, decide (c ≠ 61) = true := by
  intro c hc
  have hrange := isKeyChar_range (h c hc)
  rw [decide_eq_true_eq]
  omega

theorem definitionOf_argument {key : Text} (h : ∀ c ∈ key, isKeyChar c = true) (value : Text) :
    definitionOf (lit "-D" ++ key ++ 61 :: value) = some (key, value) := by
  obtain ⟨htake, hdrop⟩ := span_key (key_before_equals h) (by decide) value
  change (match (key ++ 61 :: value).dropWhile (· ≠ 61) with
    | _ :: value' => some ((key ++ 61 :: value).takeWhile (· ≠ 61), value')
    | [] => none) = _
  rw [hdrop, htake]

theorem overridable_keys : (overridable.map Prod.snd).Perm nativeKeys := by decide

theorem overridable_known {limit : Text × Text} (h : limit ∈ overridable) : limit.2 ∈ nativeKeys :=
  overridable_keys.mem_iff.mp (List.mem_map_of_mem h)

/-- The values that take the place of a default have no blanks in them. -/
def Unbroken (env : Text → Text) (vals : Defaults) : Prop :=
  ∀ limit ∈ overridable, effective env vals limit ≠ vals limit.2 →
    ∀ c ∈ env limit.1, isSeparator c = false

theorem key_unbroken {key : Text} (h : key ∈ nativeKeys) : ∀ c ∈ key, isSeparator c = false := by
  intro c hc
  have hrange := isKeyChar_range ((nativeKeys_chars key h).2 c hc)
  simp only [isSeparator, decide_eq_false_iff_not]
  omega

theorem effective_eq_or (env : Text → Text) (vals : Defaults) (limit : Text × Text) :
    effective env vals limit = env limit.1 ∨ effective env vals limit = vals limit.2 :=
  ite_eq_or_eq _ _ _

theorem cmakeArguments_eq {env : Text → Text} {vals : Defaults} (henv : Unbroken env vals)
    (hvals : ∀ key ∈ nativeKeys, ∀ c ∈ vals key, isSeparator c = false) :
    cmakeArguments env vals =
      overridable.map fun limit => lit "-D" ++ limit.2 ++ 61 :: effective env vals limit := by
  rw [cmakeArguments, List.map_eq_flatMap]
  apply List.flatMap_congr
  intro limit hlimit
  have hknown := overridable_known hlimit
  rw [splitWordsFrom_word, List.nil_append, if_neg (by simp)]
  intro c hc
  rcases List.mem_append.mp hc with hc | hc
  · have hoption : ∀ c ∈ lit "-D", isSeparator c = false := by decide
    rcases List.mem_append.mp hc with hc | hc
    · exact hoption c hc
    · exact key_unbroken hknown c hc
  · rcases List.mem_cons.mp hc with rfl | hc
    · rfl
    · by_cases hdefault : effective env vals limit = vals limit.2
      · exact hvals limit.2 hknown c (hdefault ▸ hc)
      · have htaken := (effective_eq_or env vals limit).resolve_right hdefault
        exact henv limit hlimit hdefault c (htaken ▸ hc)

theorem foldl_define_other {pairs : List (Text × Text)} {key : Text} (h : key ∉ pairs.map Prod.fst)
    (cache : Cache) :
    pairs.foldl Cache.define cache key = cache key := by
  induction pairs generalizing cache with
  | nil => rfl
  | cons p pairs ih =>
    rw [List.map_cons, List.mem_cons, not_or] at h
    rw [List.foldl_cons, ih h.2, Cache.define, Function.update_of_ne h.1]

theorem foldl_define {pairs : List (Text × Text)} (hnodup : (pairs.map Prod.fst).Nodup)
    {x : Text × Text} (hx : x ∈ pairs) (cache : Cache) :
    pairs.foldl Cache.define cache x.1 = some x.2 := by
  induction pairs generalizing cache with
  | nil => cases hx
  | cons p pairs ih =>
    rw [List.map_cons, List.nodup_cons] at hnodup
    rw [List.foldl_cons]
    rcases List.mem_cons.mp hx with rfl | hx
    · rw [foldl_define_other hnodup.1, Cache.define, Function.update_self]
    · exact ih hnodup.2 hx _

theorem cmakeCache_limit {env : Text → Text} {vals : Defaults} (henv : Unbroken env vals)
    (hvals : ∀ key ∈ nativeKeys, ∀ c ∈ vals key, isSeparator c = false) {limit : Text × Text}
    (h : limit ∈ overridable) :
    cmakeCache (cmakeArguments env vals) limit.2 = some (effective env vals limit) := by
  have hpairs : (cmakeArguments env vals).filterMap definitionOf =
      overridable.map fun limit => (limit.2, effective env vals limit) := by
    rw [cmakeArguments_eq henv hvals, List.filterMap_map, ← List.filterMap_eq_map]
    apply List.filterMap_congr
    intro limit hlimit
    exact definitionOf_argument (nativeKeys_chars _ (overridable_known hlimit)).2 _
  have hnodup : ((overridable.map fun limit => (limit.2, effective env vals limit)).map
      Prod.fst).Nodup := by
    rw [List.map_map]
    exact overridable_keys.nodup_iff.mpr nativeKeys_nodup
  rw [cmakeCache, hpairs]
  exact foldl_define hnodup (List.mem_map_of_mem h) _

theorem foldl_setCacheDefault (vals : Defaults) (keys : List Text) (cache : Cache)
    {key : Text} (h : key ∈ keys ∨ cache key ≠ none) :
    keys.foldl (fun cache key => hakoSetCacheDefault key (vals key) cache) cache key =
      some ((cache key).getD (vals key)) := by
  induction keys generalizing cache with
  | nil =>
    obtain ⟨v, hv⟩ := Option.ne_none_iff_exists'.mp (h.resolve_left List.not_mem_nil)
    rw [List.foldl_nil, hv, Option.getD_some]
  | cons k keys ih =>
    rw [List.foldl_cons]
    by_cases hk : key = k
    · subst hk
      have hset : hakoSetCacheDefault key (vals key) cache key = some ((cache key).getD (vals key)) := by
        unfold hakoSetCacheDefault
        cases hcache : cache key with
        | none => simp [Cache.define]
        | some v => simp [hcache]
      rw [ih _ (Or.inr (by rw [hset]; nofun)), hset, Option.getD_some]
    · have hset : hakoSetCacheDefault k (vals k) cache key = cache key := by
        unfold hakoSetCacheDefault
        split
        · exact Function.update_of_ne hk _ _
        · rfl
      have hrest : key ∈ keys ∨ hakoSetCacheDefault k (vals k) cache key ≠ none := by
        rw [hset]
        exact h.imp_left fun hmem => (List.mem_cons.mp hmem).resolve_left hk
      rw [ih _ hrest, hset]

theorem compileDefinitions_means {strings : Text → List Text} {text : Text}
    {es : List (Option (Text × Text))} (h : List.Forall₂ Means (strings text) es)
    (cache : Cache) :
    compileDefinitions strings text cache =
      .ok (nativeKeys.map fun key => (key, (cache key).getD (es.foldl store (fun _ => []) key))) := by
  unfold compileDefinitions
  rw [hakoLoadBuildDefaults_means h]
  apply congrArg Except.ok
  apply List.map_congr_left
  intro key hkey
  rw [foldl_setCacheDefault _ _ _ (Or.inl hkey), Option.getD_some]

theorem trimWhiteSpace_visible {s : Text} (h : ∀ c ∈ s, 33 ≤ c ∧ c < 127) : trimWhiteSpace s = s := by
  apply cut_visible
  intro c hc
  have hrange := h c hc
  simp only [isWhiteSpace, decide_eq_false_iff_not]
  omega

theorem isKeyChar_visible {c : ℕ} (h : isKeyChar c = true ∨ c = 61) : 33 ≤ c ∧ c < 127 := by
  rcases h with h | rfl
  · have hrange := isKeyChar_range h
    omega
  · decide

theorem strNat_visible {n : ℕ} : ∀ c ∈ strNat n, 33 ≤ c ∧ c < 127 := by
  intro c hc
  have hdigit := strNat_digit hc
  omega

theorem tryParse_strNat (n : ℕ) :
    tryParse (strNat n) = if (n : ℤ) < 2 ^ 31 then some (n : ℤ) else none := by
  have hdigits : ∀ c ∈ strNat n, isDigit c = true := fun c hc => strNat_isDigit hc
  have hall : (strNat n).all isDigit = true := List.all_eq_true.mpr hdigits
  have hvalue : numeral (strNat n) = n := foldl_strNat n
  have hlow : (-2 ^ 31 : ℤ) ≤ (n : ℤ) := by omega
  simp only [tryParse, splitSign_digits hdigits, hall, hvalue, Bool.false_eq_true, if_false, ne_eq,
    strNat_ne_nil, not_false_eq_true, true_and, hlow]

variable (ps : PowerShell)

theorem readWinLine_entry {limit : Limit} (h : limit.1 ∈ nativeKeys) {defaults : List (Text × ℤ)}
    (hknown : ∀ d ∈ defaults, d.1 ∈ nativeKeys) (hnew : limit.1 ∉ defaults.map Prod.fst)
    (es : List (Text × ℤ)) :
    readWinLine ps defaults (entryLine limit) = .ok es ↔
      limit.2.1 < 2 ^ 31 ∧ es = defaults ++ [(limit.1, limit.2.1)] := by
  obtain ⟨hne, hchars⟩ := nativeKeys_chars limit.1 h
  have htrim : trimWhiteSpace (entryLine limit) = entryLine limit :=
    trimWhiteSpace_visible fun c hc => isKeyChar_visible (entryLine_char h hc)
  have hstart : ¬ (entryLine limit = [] ∨ (entryLine limit).head? = some 35) := by
    have hskipped := entry_not_skipped (entryLine_entry h)
    unfold Skipped at hskipped
    have hsame : trim (entryLine limit) = entryLine limit := (entryLine_entry h).line_eq
    rwa [hsame] at hskipped
  obtain ⟨htake, hdrop⟩ : (entryLine limit).takeWhile (· ≠ 61) = limit.1 ∧
      (entryLine limit).dropWhile (· ≠ 61) = 61 :: strNat limit.2.1.natAbs :=
    span_key (key_before_equals hchars) (by decide) _
  have hkeyTrim : trimWhiteSpace limit.1 = limit.1 :=
    trimWhiteSpace_visible fun c hc => isKeyChar_visible (Or.inl (hchars c hc))
  have hvalueTrim := trimWhiteSpace_visible (strNat_visible (n := limit.2.1.natAbs))
  have hallowed : nativeKeys.any (ps.sameKey limit.1) = true :=
    List.any_eq_true.mpr ⟨limit.1, h, ps.refl limit.1⟩
  have hdup : (defaults.any fun d => ps.sameKey limit.1 d.1) = false := by
    rw [List.any_eq_false]
    intro d hd hsame
    have heq := ps.apart limit.1 h d.1 (hknown d hd) hsame
    exact hnew (heq ▸ List.mem_map_of_mem hd)
  have hpos := limit.2.2
  have habs : ((limit.2.1.natAbs : ℕ) : ℤ) = limit.2.1 := Int.natAbs_of_nonneg hpos.le
  unfold readWinLine
  simp only [htrim, if_neg hstart, hdrop, htake, hkeyTrim, hallowed, hdup, hvalueTrim,
    not_true_eq_false, Bool.false_eq_true, if_false]
  by_cases hmax : limit.2.1 < 2 ^ 31
  · have hread : tryParse (strNat limit.2.1.natAbs) = some limit.2.1 := by
      rw [tryParse_strNat, habs, if_pos hmax]
    rw [hread]
    simp only [if_neg (not_le.mpr hpos), Except.ok.injEq, hmax, true_and]
    exact eq_comm
  · have hread : tryParse (strNat limit.2.1.natAbs) = none := by
      rw [tryParse_strNat, habs, if_neg hmax]
    rw [hread]
    exact iff_of_false nofun fun h => hmax h.1

theorem readWinLine_fold {limits : List Limit} (h : ∀ limit ∈ limits, limit.1 ∈ nativeKeys)
    {defaults : List (Text × ℤ)} (hknown : ∀ d ∈ defaults, d.1 ∈ nativeKeys)
    (hnodup : (defaults.map Prod.fst ++ limits.map Prod.fst).Nodup) (es : List (Text × ℤ)) :
    (limits.map entryLine).foldlM (readWinLine ps) defaults = .ok es ↔
      (∀ limit ∈ limits, limit.2.1 < 2 ^ 31) ∧
        es = defaults ++ limits.map fun limit => (limit.1, limit.2.1) := by
  induction limits generalizing defaults with
  | nil =>
    simp only [List.map_nil, List.foldlM_nil, List.append_nil, List.not_mem_nil, false_implies,
      implies_true, true_and]
    exact ⟨fun h => (Except.ok.inj h).symm, fun h => congrArg Except.ok h.symm⟩
  | cons limit limits ih =>
    have hlimit := h limit List.mem_cons_self
    have hnew : limit.1 ∉ defaults.map Prod.fst := by
      intro hmem
      exact (List.nodup_append.mp hnodup).2.2 _ hmem _ List.mem_cons_self rfl
    have hknown' : ∀ d ∈ defaults ++ [(limit.1, limit.2.1)], d.1 ∈ nativeKeys := by
      intro d hd
      rcases List.mem_append.mp hd with hd | hd
      · exact hknown d hd
      · rw [List.mem_singleton.mp hd]
        exact hlimit
    have hnodup' : ((defaults ++ [(limit.1, limit.2.1)]).map Prod.fst ++ limits.map Prod.fst).Nodup := by
      simpa using hnodup
    have hrest := ih (fun x hx => h x (List.mem_cons_of_mem limit hx)) hknown' hnodup'
    rw [List.map_cons, List.foldlM_cons, bind_ok_iff]
    simp only [readWinLine_entry ps hlimit hknown hnew, List.forall_mem_cons, List.map_cons]
    constructor
    · rintro ⟨_, ⟨hmax, rfl⟩, hfold⟩
      obtain ⟨hall, hes⟩ := hrest.mp hfold
      refine ⟨⟨hmax, hall⟩, ?_⟩
      rw [hes, List.append_assoc, List.singleton_append]
    · rintro ⟨⟨hmax, hall⟩, rfl⟩
      refine ⟨_, ⟨hmax, rfl⟩, hrest.mpr ⟨hall, ?_⟩⟩
      rw [List.append_assoc, List.singleton_append]

theorem getBuildDefaults_written (cfg : BuildConfig) (es : List (Text × ℤ)) :
    getBuildDefaults ps (unlines (defaultLines cfg)) = .ok es ↔
      (∀ limit ∈ nativeLimits cfg, limit.2.1 < 2 ^ 31) ∧
        es = (nativeLimits cfg).map fun limit => (limit.1, limit.2.1) := by
  have hheader : readWinLine ps [] headerLine = .ok [] := by
    have hcomment : (trimWhiteSpace headerLine).head? = some 35 := by decide
    unfold readWinLine
    exact if_pos (Or.inr hcomment)
  have hnodup : (([] : List (Text × ℤ)).map Prod.fst ++ (nativeLimits cfg).map Prod.fst).Nodup :=
    nativeLimits_nodup cfg
  have hknown : ∀ limit ∈ nativeLimits cfg, limit.1 ∈ nativeKeys := fun _ h => nativeLimits_known h
  have hnone : ∀ d ∈ ([] : List (Text × ℤ)), d.1 ∈ nativeKeys := fun _ hd => absurd hd List.not_mem_nil
  have hfold := readWinLine_fold ps hknown hnone hnodup es
  unfold getBuildDefaults
  rw [contentFrom_unlines (defaultLines_plain cfg), defaultLines, List.foldlM_cons, hheader]
  exact hfold

theorem getDefaultValue_written {cfg : BuildConfig} {limit : Limit} (h : limit ∈ nativeLimits cfg) :
    getDefaultValue ps ((nativeLimits cfg).map fun limit => (limit.1, limit.2.1)) limit.1 =
      .ok limit.2.1 := by
  have hmem : (limit.1, limit.2.1) ∈ (nativeLimits cfg).map fun limit => (limit.1, limit.2.1) :=
    List.mem_map_of_mem h
  unfold getDefaultValue
  cases hfind : ((nativeLimits cfg).map fun limit => (limit.1, limit.2.1)).find? fun d =>
      ps.sameKey limit.1 d.1 with
  | none => exact absurd (ps.refl limit.1) (List.find?_eq_none.mp hfind _ hmem)
  | some d =>
    obtain ⟨other, hother, rfl⟩ := List.mem_map.mp (List.mem_of_find?_eq_some hfind)
    have hkey : ps.sameKey limit.1 other.1 = true := by simpa using List.find?_some hfind
    have hsame := ps.apart _ (nativeLimits_known h) _ (nativeLimits_known hother) hkey
    obtain rfl : limit = other :=
      List.inj_on_of_nodup_map (nativeLimits_nodup cfg) h hother hsame
    rfl

/-- All readers take the limits of the configuration from the file: `build.bash` and CMake as they are,
whatever is overridden, and PowerShell if they are of type `int`. -/
structure CarriesLimits (cfg : BuildConfig) (conf : Text) : Prop where
  posix : ∃ vals, readBuildDefaults conf = .ok vals ∧
    (∀ limit ∈ nativeLimits cfg, vals limit.1 = strNat limit.2.1.natAbs) ∧
    ∀ strings env, GivesLines strings → Unbroken env vals →
      ∃ definitions,
        compileDefinitions strings conf (cmakeCache (cmakeArguments env vals)) = .ok definitions ∧
          definitions.map Prod.fst = nativeKeys ∧
          ∀ limit ∈ overridable, (limit.2, effective env vals limit) ∈ definitions
  cmake : ∀ strings, GivesLines strings → compileDefinitions strings conf (fun _ => none) =
    .ok ((nativeLimits cfg).map fun limit => (limit.1, strNat limit.2.1.natAbs))
  windows : ∀ ps es, getBuildDefaults ps conf = .ok es ↔
    (∀ limit ∈ nativeLimits cfg, limit.2.1 < 2 ^ 31) ∧
      es = (nativeLimits cfg).map fun limit => (limit.1, limit.2.1)
  windowsValue : ∀ ps es, getBuildDefaults ps conf = .ok es →
    ∀ limit ∈ nativeLimits cfg, getDefaultValue ps es limit.1 = .ok limit.2.1

theorem defaultValues_unbroken (cfg : BuildConfig) :
    ∀ key ∈ nativeKeys, ∀ c ∈ defaultValues cfg key, isSeparator c = false := by
  intro key hkey c hc
  rw [← nativeLimits_keys cfg] at hkey
  obtain ⟨limit, hlimit, rfl⟩ := List.mem_map.mp hkey
  rw [defaultValues_limit hlimit] at hc
  have hrange := strNat_visible c hc
  simp only [isSeparator, decide_eq_false_iff_not]
  omega

theorem carriesLimits_written (cfg : BuildConfig) : CarriesLimits cfg (unlines (defaultLines cfg)) where
  posix := by
    refine ⟨defaultValues cfg, readBuildDefaults_written cfg, fun _ => defaultValues_limit, ?_⟩
    intro strings env hstrings henv
    have hlines := hstrings _ (defaultLines_plain cfg)
    refine ⟨_, compileDefinitions_means (hlines ▸ defaultLines_means cfg) _, ?_, ?_⟩
    · rw [List.map_map]
      exact List.map_id' nativeKeys
    · intro limit hlimit
      refine List.mem_map.mpr ⟨limit.2, overridable_known hlimit, ?_⟩
      rw [cmakeCache_limit henv (defaultValues_unbroken cfg) hlimit, Option.getD_some]
  cmake := by
    intro strings hstrings
    have hlines := hstrings _ (defaultLines_plain cfg)
    rw [compileDefinitions_means (hlines ▸ defaultLines_means cfg), ← nativeLimits_keys cfg, List.map_map]
    apply congrArg Except.ok
    apply List.map_congr_left
    intro limit hlimit
    exact congrArg (Prod.mk limit.1) (defaultValues_limit hlimit)
  windows ps es := getBuildDefaults_written ps cfg es
  windowsValue ps es hread limit hlimit := by
    obtain ⟨-, rfl⟩ := (getBuildDefaults_written ps cfg es).mp hread
    exact getDefaultValue_written ps hlimit

def smallManifest : Text :=
  lit "version: 1\nlimits:\n  asset_num: 24\n  pdu_channel_max: 4096\n  recv_event_max: 2048\n" ++
    lit "  service_client_max: 128\n  service_max: 512\n  client_name_len_max: 48\n" ++
    lit "  service_name_len_max: 96\n"

def smallDefaults : Text :=
  headerLine ++ lit "\nHAKO_DATA_MAX_ASSET_NUM=24\nHAKO_PDU_CHANNEL_MAX=4096\n" ++
    lit "HAKO_RECV_EVENT_MAX=2048\nHAKO_SERVICE_CLIENT_MAX=128\nHAKO_SERVICE_MAX=512\n" ++
    lit "HAKO_CLIENT_NAMELEN_MAX=48\nHAKO_SERVICE_NAMELEN_MAX=96\n"

def smallConf : Except HakoError Text := do
  let raw ← loadSimpleYaml plainPython (lit "hakoniwa-build.yaml") smallManifest
  let cfg ← resolveConfig raw
  renderNativeDefaults plainPython cfg

end NativeBuild
end HakoniwaCorePro
