import HakoniwaCorePro.FirstOccurrences
import HakoniwaCorePro.ServiceSetup

/-!
# The PDUs of a robot

`hako_asset_impl_parse_robots`: what a callback asset keeps of its PDU configuration. The PDUs of
a robot are collected under a textual key, in the legacy form from four lists of the robot, in the
compact form from a file of PDU types that the robot names.
-/

namespace HakoniwaCorePro
namespace PduConfig

open Service (Name Json Access Fault)
open Fallible FirstOccurrences

structure PduIo where
  type : Name
  channelId : ℤ
  pduSize : ℤ
  deriving DecidableEq

structure PduIoEntry where
  io : PduIo
  name : Name
  deriving DecidableEq

structure RobotCompact where
  name : Name
  pdus : List PduIoEntry
  deriving DecidableEq

/-- The character `|`. -/
def bar : UInt8 := 124

/-- `std::to_string` of an `int` -/
def toString (n : ℤ) : Name :=
  let digits := (Nat.toDigits 10 n.natAbs).map Char.toUInt8
  if n < 0 then 45 :: digits else digits

def hakoPduKey (e : PduIoEntry) : Name :=
  e.name ++ bar :: toString e.io.channelId ++ bar :: toString e.io.pduSize

def PduIoEntry.triple (e : PduIoEntry) : Name × ℤ × ℤ := (e.name, e.io.channelId, e.io.pduSize)

theorem digit_bounds {n : ℕ} {c : Char} (h : c ∈ Nat.toDigits 10 n) : 48 ≤ c.toNat ∧ c.toNat ≤ 57 := by
  have hdigit := Nat.isDigit_of_mem_toDigits (by decide) (by decide) h
  simp only [Char.isDigit, Bool.and_eq_true, decide_eq_true_eq, ge_iff_le, UInt32.le_iff_toNat_le]
    at hdigit
  exact hdigit

theorem toNat_toUInt8 {c : Char} (h : c.toNat ≤ 57) : c.toUInt8.toNat = c.toNat := by
  have hmod : c.toUInt8.toNat = c.toNat % 2 ^ 8 := rfl
  omega

theorem toDigits_bytes_inj {m n : ℕ} (h : (Nat.toDigits 10 m).map Char.toUInt8 =
    (Nat.toDigits 10 n).map Char.toUInt8) : m = n := by
  have hback : ∀ k : ℕ, ((Nat.toDigits 10 k).map Char.toUInt8).map (fun b => Char.ofNat b.toNat) =
      Nat.toDigits 10 k := by
    intro k
    rw [List.map_map]
    refine (List.map_congr_left fun c hc => ?_).trans (List.map_id _)
    simp only [Function.comp_apply, toNat_toUInt8 (digit_bounds hc).2, Char.ofNat_toNat, id]
  have hdigits := congrArg (List.map fun b : UInt8 => Char.ofNat b.toNat) h
  rw [hback, hback] at hdigits
  rw [← Nat.ofDigitChars_ten_toDigits (n := m), hdigits, Nat.ofDigitChars_ten_toDigits]

theorem digit_byte_bounds {n : ℕ} {b : UInt8} (h : b ∈ (Nat.toDigits 10 n).map Char.toUInt8) :
    48 ≤ b.toNat ∧ b.toNat ≤ 57 := by
  obtain ⟨c, hc, rfl⟩ := List.mem_map.mp h
  have hbounds := digit_bounds hc
  rw [toNat_toUInt8 hbounds.2]
  exact hbounds

theorem bar_notMem_toString (n : ℤ) : bar ∉ toString n := by
  intro h
  have hdigit : bar ∉ (Nat.toDigits 10 n.natAbs).map Char.toUInt8 := by
    intro hmem
    have hbounds := (digit_byte_bounds hmem).2
    exact absurd hbounds (by decide)
  unfold toString at h
  dsimp only at h
  split at h
  · rcases List.mem_cons.mp h with heq | hmem
    · exact absurd heq (by decide)
    · exact hdigit hmem
  · exact hdigit h

theorem toString_injective : Function.Injective toString := by
  intro m n h
  have hsign : ∀ k : ℕ, ∀ l : Name, (45 : UInt8) :: l ≠ (Nat.toDigits 10 k).map Char.toUInt8 := by
    intro k l he
    have hmem : (45 : UInt8) ∈ (Nat.toDigits 10 k).map Char.toUInt8 := he ▸ List.mem_cons_self
    exact absurd (digit_byte_bounds hmem).1 (by decide)
  unfold toString at h
  dsimp only at h
  split at h <;> split at h
  · have habs := toDigits_bytes_inj (List.cons.inj h).2
    omega
  · exact absurd h (hsign _ _)
  · exact absurd h.symm (hsign _ _)
  · have habs := toDigits_bytes_inj h
    omega

/-- The last separator splits a text. -/
theorem append_bar_inj {a b s t : Name} (hs : bar ∉ s) (ht : bar ∉ t) (h : a ++ bar :: s = b ++ bar :: t) :
    a = b ∧ s = t := by
  induction a generalizing b with
  | nil =>
    cases b with
    | nil => exact ⟨rfl, (List.cons.inj h).2⟩
    | cons c b =>
      have hmem : bar ∈ s := (List.cons.inj h).2 ▸ (by simp)
      exact absurd hmem hs
  | cons c a ih =>
    cases b with
    | nil =>
      have hmem : bar ∈ t := (List.cons.inj h).2 ▸ (by simp)
      exact absurd hmem ht
    | cons d b =>
      obtain ⟨hhead, htail⟩ := List.cons.inj h
      obtain ⟨hab, hst⟩ := ih htail
      exact ⟨by rw [hhead, hab], hst⟩

theorem hakoPduKey_eq_iff (d e : PduIoEntry) : hakoPduKey d = hakoPduKey e ↔ d.triple = e.triple := by
  constructor
  · intro h
    obtain ⟨hfront, hsize⟩ := append_bar_inj (bar_notMem_toString _) (bar_notMem_toString _) h
    obtain ⟨hname, hchannel⟩ := append_bar_inj (bar_notMem_toString _) (bar_notMem_toString _) hfront
    unfold PduIoEntry.triple
    rw [hname, toString_injective hchannel, toString_injective hsize]
  · intro h
    simp only [PduIoEntry.triple, Prod.mk.injEq] at h
    unfold hakoPduKey
    rw [h.1, h.2.1, h.2.2]

/-- The robot that is being read, and the set `seen` beside it. -/
abbrev Collecting := RobotCompact × List Name

def Collecting.fresh (name : Name) : Collecting := ({ name := name, pdus := [] }, [])

def hakoAddPduIoUnique (c : Collecting) (entry : PduIoEntry) : Collecting :=
  let key := hakoPduKey entry
  if key ∈ c.2 then c else ({ c.1 with pdus := c.1.pdus ++ [entry] }, key :: c.2)

/-- `create_io_from_legacy` and `create_io_compact`, which differ in the member with the name. -/
def createIo (nameKey : String) (pdu : Json) : Access PduIoEntry := do
  let type ← (← pdu.member "type").toName
  let channelId ← (← pdu.member "channel_id").toInt
  let pduSize ← (← pdu.member "pdu_size").toInt
  let name ← (← pdu.member nameKey).toName
  return { io := { type := type, channelId := channelId, pduSize := pduSize }, name := name }

def createIoFromLegacy : Json → Access PduIoEntry := createIo "org_name"

def createIoCompact : Json → Access PduIoEntry := createIo "name"

def addPdus (create : Json → Access PduIoEntry) (pdus : List Json) (c : Collecting) : Access Collecting :=
  pdus.foldlM (fun c pdu => do return hakoAddPduIoUnique c (← create pdu)) c

/-- `find(key) != end()` -/
def contains (key : String) : Json → Bool
  | .object members => (members.find? fun m => m.1 == key).isSome
  | _ => false

/-- The block that reads one of the four optional lists of a robot. -/
def addLegacyList (key : String) (robot : Json) (c : Collecting) : Access Collecting :=
  if contains key robot then do addPdus createIoFromLegacy (← robot.member key).items c
  else return c

/-- The body of the loop over the robots of a legacy configuration. -/
def parseRobotLegacy (robotJson : Json) : Access RobotCompact := do
  let name ← (← robotJson.member "name").toName
  let c ← addLegacyList "shm_pdu_writers" robotJson (Collecting.fresh name)
  let c ← addLegacyList "rpc_pdu_writers" robotJson c
  let c ← addLegacyList "shm_pdu_readers" robotJson c
  let c ← addLegacyList "rpc_pdu_readers" robotJson c
  return c.1

/-- What opening and parsing a file gives. -/
inductive JsonFile
  | unopened | malformed
  | parsed (value : Json)

/-- `hako_get_dirname`: the text before the last `/` or `\`, the current directory without one. -/
def hakoGetDirname (path : Name) : Name :=
  match path.reverse.dropWhile fun c => c != 47 && c != 92 with
  | [] => [46]
  | _ :: dir => dir.reverse

def hakoJoinPath (baseDir path : Name) : Name :=
  if path.head? = some 47 then path else baseDir ++ 47 :: path

abbrev PduTypesMap := List (Name × Json)

/-- An id that the map already has keeps its value. -/
def PduTypesMap.emplace (m : PduTypesMap) (id : Name) (pdutypes : Json) : PduTypesMap :=
  if m.any fun p => p.1 == id then m else m ++ [(id, pdutypes)]

section

variable (file : Name → JsonFile)

/-- The loop over `paths`; `none` is a file that cannot be opened or parsed. -/
def loadPduTypes (baseDir : Name) : List Json → PduTypesMap → Access (Option PduTypesMap)
  | [], m => return some m
  | pathJson :: rest, m => do
    let id ← (← pathJson.member "id").toName
    let path ← (← pathJson.member "path").toName
    match file (hakoJoinPath baseDir path) with
    | .unopened | .malformed => return none
    | .parsed pdutypes => loadPduTypes baseDir rest (m.emplace id pdutypes)

/-- The body of the loop over the robots of a compact configuration; `none` is an id that no file
has. -/
def parseRobotCompact (m : PduTypesMap) (robotJson : Json) : Access (Option RobotCompact) := do
  let name ← (← robotJson.member "name").toName
  let pdutypesId ← (← robotJson.member "pdutypes_id").toName
  match m.find? fun p => p.1 == pdutypesId with
  | none => return none
  | some (_, pdutypes) =>
    let c ← addPdus createIoCompact pdutypes.items (Collecting.fresh name)
    return some c.1

/-- A loop that returns from the function at the first `none`. -/
def untilNone {β : Type} (f : Json → Access (Option β)) : List Json → Access (Option (List β))
  | [] => return some []
  | j :: js => do
    match ← f j with
    | none => return none
    | some b => return (← untilNone f js).map (b :: ·)

/-- The list that is moved to the instance; `none` is the return of `false`. -/
def hakoAssetImplParseRobotsCompact (configPath : Name) (param : Json) :
    Access (Option (List RobotCompact)) := do
  let pathsJson ← param.memberOrNull "paths"
  let robotsJson ← param.memberOrNull "robots"
  match ← loadPduTypes file (hakoGetDirname configPath) pathsJson.items [] with
  | none => return none
  | some m => untilNone (parseRobotCompact m) robotsJson.items

def hakoAssetImplParseRobots (configPath : Name) (param : Json) : Access (Option (List RobotCompact)) :=
  if contains "paths" param then hakoAssetImplParseRobotsCompact file configPath param
  else do
    let robotsJson ← param.memberOrNull "robots"
    return some (← robotsJson.items.mapM parseRobotLegacy)

end

/-- A robot with all the entries that its lists or its file have. -/
structure RobotDefinition where
  name : Name
  entries : List PduIoEntry

def listOf (robot : Json) (key : String) : List Json :=
  match robot.member key with
  | .ok list => list.items
  | .error _ => []

def legacyKeys : List String :=
  ["shm_pdu_writers", "rpc_pdu_writers", "shm_pdu_readers", "rpc_pdu_readers"]

def legacyDefinition (robot : Json) : Access RobotDefinition := do
  let name ← (← robot.member "name").toName
  return ⟨name, ← (legacyKeys.flatMap (listOf robot)).mapM createIoFromLegacy⟩

def compactDefinition (m : PduTypesMap) (robot : Json) : Access (Option RobotDefinition) := do
  let name ← (← robot.member "name").toName
  let id ← (← robot.member "pdutypes_id").toName
  match m.find? fun p => p.1 == id with
  | none => return none
  | some (_, pdutypes) => return some ⟨name, ← pdutypes.items.mapM createIoCompact⟩

def robotDefinitions (file : Name → JsonFile) (configPath : Name) (param : Json) :
    Access (Option (List RobotDefinition)) :=
  if contains "paths" param then do
    let paths ← param.memberOrNull "paths"
    let robots ← param.memberOrNull "robots"
    match ← loadPduTypes file (hakoGetDirname configPath) paths.items [] with
    | none => return none
    | some m => untilNone (compactDefinition m) robots.items
  else do
    let robots ← param.memberOrNull "robots"
    return some (← robots.items.mapM legacyDefinition)

/-- The entry is what the members of the object say. The two numbers are those that a conversion to
`int` takes of the members. -/
structure Says (nameKey : String) (pdu : Json) (e : PduIoEntry) : Prop where
  type : pdu.member "type" = .ok (.string e.io.type)
  channelId : ∃ v, pdu.member "channel_id" = .ok v ∧ v.toInt = .ok e.io.channelId
  pduSize : ∃ v, pdu.member "pdu_size" = .ok v ∧ v.toInt = .ok e.io.pduSize
  name : pdu.member nameKey = .ok (.string e.name)

/-- The four lists of the robot, one behind the other, are the entries. -/
structure SaysLegacy (robot : Json) (d : RobotDefinition) : Prop where
  name : robot.member "name" = .ok (.string d.name)
  entries : List.Forall₂ (Says "org_name") (legacyKeys.flatMap (listOf robot)) d.entries

/-- The file under the id that the robot names has the entries; of files under one id the first counts. -/
structure SaysCompact (files : List (Name × Json)) (robot : Json) (d : RobotDefinition) : Prop where
  name : robot.member "name" = .ok (.string d.name)
  entries : ∃ id pdutypes, robot.member "pdutypes_id" = .ok (.string id) ∧
    (files.find? fun p => p.1 == id).map Prod.snd = some pdutypes ∧
    List.Forall₂ (Says "name") pdutypes.items d.entries

/-- A file of PDU types under its id. -/
structure NamesFile (file : Name → JsonFile) (dir : Name) (pathJson : Json) (f : Name × Json) :
    Prop where
  id : pathJson.member "id" = .ok (.string f.1)
  path : ∃ path, pathJson.member "path" = .ok (.string path) ∧
    file (hakoJoinPath dir path) = .parsed f.2

/-- The configuration defines these robots, with all their entries. -/
def Configures (file : Name → JsonFile) (configPath : Name) (param : Json)
    (ds : List RobotDefinition) : Prop :=
  ∃ robots, param.memberOrNull "robots" = .ok robots ∧
    if contains "paths" param then
      ∃ paths files, param.memberOrNull "paths" = .ok paths ∧
        List.Forall₂ (NamesFile file (hakoGetDirname configPath)) paths.items files ∧
        List.Forall₂ (SaysCompact files) robots.items ds
    else List.Forall₂ SaysLegacy robots.items ds

/-- The robot that is kept: of the entries with one triple, the first. -/
def RobotDefinition.kept (d : RobotDefinition) : RobotCompact where
  name := d.name
  pdus := firsts PduIoEntry.triple d.entries

/-- Every triple of the definition is there once, at the place of its first entry, and nothing else. -/
structure KeepsEachPdu (d : RobotDefinition) (r : RobotCompact) : Prop where
  name : r.name = d.name
  once : (r.pdus.map PduIoEntry.triple).Nodup
  all : ∀ t, t ∈ r.pdus.map PduIoEntry.triple ↔ t ∈ d.entries.map PduIoEntry.triple
  first : ∀ e, e ∈ r.pdus ↔ ∃ before after, d.entries = before ++ e :: after ∧
    e.triple ∉ before.map PduIoEntry.triple
  inOrder : r.pdus.Sublist d.entries

theorem RobotDefinition.kept_keepsEachPdu (d : RobotDefinition) : KeepsEachPdu d d.kept where
  name := rfl
  once := nodup_map_firsts _ _
  all := mem_map_firsts _ _
  first := mem_firsts_iff _ _
  inOrder := firsts_sublist _ _

theorem hakoAddPduIoUnique_collected {l : List PduIoEntry} {c : Collecting}
    (h : Collected hakoPduKey l c.1.pdus c.2) (e : PduIoEntry) :
    Collected hakoPduKey (l ++ [e]) (hakoAddPduIoUnique c e).1.pdus (hakoAddPduIoUnique c e).2 := by
  unfold hakoAddPduIoUnique
  by_cases he : hakoPduKey e ∈ c.2
  · simp only [if_pos he]
    exact h.skip he
  · simp only [if_neg he]
    exact h.keep he

theorem foldl_add_collected (es : List PduIoEntry) {l : List PduIoEntry} {c : Collecting}
    (h : Collected hakoPduKey l c.1.pdus c.2) :
    Collected hakoPduKey (l ++ es) (es.foldl hakoAddPduIoUnique c).1.pdus
      (es.foldl hakoAddPduIoUnique c).2 := by
  induction es generalizing l c with
  | nil => simpa using h
  | cons e es ih => simpa using ih (hakoAddPduIoUnique_collected h e)

@[simp] theorem hakoAddPduIoUnique_name (c : Collecting) (e : PduIoEntry) :
    (hakoAddPduIoUnique c e).1.name = c.1.name := by
  unfold hakoAddPduIoUnique
  dsimp only
  split <;> rfl

theorem foldl_add_name (es : List PduIoEntry) (c : Collecting) :
    (es.foldl hakoAddPduIoUnique c).1.name = c.1.name := by
  induction es generalizing c with
  | nil => rfl
  | cons e es ih => simp [ih]

theorem foldl_add_eq (name : Name) (es : List PduIoEntry) :
    (es.foldl hakoAddPduIoUnique (Collecting.fresh name)).1 = RobotDefinition.kept ⟨name, es⟩ := by
  have hcollected := foldl_add_collected (c := Collecting.fresh name) es collected_nil
  have hpdus := hcollected.kept_eq
  rw [List.nil_append, firsts_congr PduIoEntry.triple hakoPduKey_eq_iff] at hpdus
  calc (es.foldl hakoAddPduIoUnique (Collecting.fresh name)).1
      = ⟨(es.foldl hakoAddPduIoUnique (Collecting.fresh name)).1.name,
          (es.foldl hakoAddPduIoUnique (Collecting.fresh name)).1.pdus⟩ := rfl
    _ = RobotDefinition.kept ⟨name, es⟩ := by rw [foldl_add_name, hpdus]; rfl

theorem addPdus_eq (create : Json → Access PduIoEntry) (pdus : List Json) (c : Collecting) :
    addPdus create pdus c = do return (← pdus.mapM create).foldl hakoAddPduIoUnique c :=
  foldlM_eq_mapM create hakoAddPduIoUnique pdus c

theorem addLegacyList_eq (key : String) (robot : Json) (c : Collecting) :
    addLegacyList key robot c = addPdus createIoFromLegacy (listOf robot key) c := by
  cases robot with
  | object members =>
    cases h : members.find? fun m => m.1 == key with
    | none =>
      simp only [addLegacyList, contains, listOf, Json.member, h]
      rfl
    | some m =>
      simp only [addLegacyList, contains, listOf, Json.member, h]
      rfl
  | _ => rfl

theorem addPdus_append (create : Json → Access PduIoEntry) (l m : List Json) :
    addPdus create (l ++ m) = fun c => addPdus create l c >>= addPdus create m :=
  funext fun _ => List.foldlM_append

theorem parseRobotLegacy_eq (robot : Json) :
    parseRobotLegacy robot = do return (← legacyDefinition robot).kept := by
  have hlists : ∀ name, (do
      let c ← addLegacyList "shm_pdu_writers" robot (Collecting.fresh name)
      let c ← addLegacyList "rpc_pdu_writers" robot c
      let c ← addLegacyList "shm_pdu_readers" robot c
      let c ← addLegacyList "rpc_pdu_readers" robot c
      return c.1) = do
        let entries ← (legacyKeys.flatMap (listOf robot)).mapM createIoFromLegacy
        return RobotDefinition.kept ⟨name, entries⟩ := by
    intro name
    simp only [← foldl_add_eq]
    have hall := addPdus_eq createIoFromLegacy (legacyKeys.flatMap (listOf robot))
      (Collecting.fresh name)
    simp only [legacyKeys, List.flatMap_cons, List.flatMap_nil, List.append_nil, addPdus_append]
      at hall
    simp only [legacyKeys, List.flatMap_cons, List.flatMap_nil, List.append_nil, addLegacyList_eq]
    have hfirst := congrArg (fun x : Access Collecting => x >>= fun c => pure c.1) hall
    simpa only [bind_assoc, pure_bind] using hfirst
  unfold parseRobotLegacy legacyDefinition
  simp only [bind_assoc, pure_bind, hlists]

theorem parseRobotCompact_eq (m : PduTypesMap) (robot : Json) :
    parseRobotCompact m robot = do return (← compactDefinition m robot).map RobotDefinition.kept := by
  unfold parseRobotCompact compactDefinition
  simp only [bind_assoc]
  refine bind_congr fun _ => bind_congr fun name => bind_congr fun _ => bind_congr fun id => ?_
  cases m.find? fun p => p.1 == id with
  | none => rfl
  | some p =>
    simp only [addPdus_eq, bind_assoc, pure_bind, foldl_add_eq, Option.map_some]

theorem untilNone_map {β γ : Type} {f : Json → Access (Option β)} {g : Json → Access (Option γ)}
    {h : β → γ} (hfg : ∀ j, g j = do return (← f j).map h) (js : List Json) :
    untilNone g js = do return (← untilNone f js).map (List.map h) := by
  induction js with
  | nil => rfl
  | cons j js ih =>
    simp only [untilNone, hfg, ih, bind_assoc, pure_bind]
    refine bind_congr fun b => ?_
    cases b with
    | none => rfl
    | some b =>
      simp only [Option.map_some, bind_assoc, pure_bind]
      refine bind_congr fun bs => ?_
      cases bs <;> rfl

theorem mapM_map {β γ : Type} {f : Json → Access β} {g : Json → Access γ} {h : β → γ}
    (hfg : ∀ j, g j = do return h (← f j)) (js : List Json) :
    js.mapM g = do return (← js.mapM f).map h := by
  induction js with
  | nil => rfl
  | cons j js ih => simp only [List.mapM_cons, hfg, ih, bind_assoc, pure_bind, List.map_cons]

/-- Parsing a configuration fails, or refuses it, exactly where reading all its entries does; else
every robot of the configuration is kept, in order. -/
theorem hakoAssetImplParseRobots_eq (file : Name → JsonFile) (configPath : Name) (param : Json) :
    hakoAssetImplParseRobots file configPath param =
      do return (← robotDefinitions file configPath param).map (List.map RobotDefinition.kept) := by
  unfold hakoAssetImplParseRobots robotDefinitions
  split
  · unfold hakoAssetImplParseRobotsCompact
    simp only [bind_assoc]
    refine bind_congr fun paths => bind_congr fun robots => bind_congr fun m => ?_
    cases m with
    | none => rfl
    | some m => exact untilNone_map (parseRobotCompact_eq m) _
  · simp only [bind_assoc, pure_bind, mapM_map parseRobotLegacy_eq, Option.map_some]

theorem toName_ok_iff {j : Json} {s : Name} : j.toName = .ok s ↔ j = .string s := by
  cases j <;> simp [Json.toName]

theorem createIo_ok_iff {nameKey : String} {pdu : Json} {e : PduIoEntry} :
    createIo nameKey pdu = .ok e ↔ Says nameKey pdu e := by
  simp only [createIo, bind_ok_iff, toName_ok_iff]
  constructor
  · rintro ⟨_, htype, type, rfl, v, hv, channelId, hchannel, w, hw, pduSize, hsize, _, hname, name,
      rfl, he⟩
    cases he
    exact ⟨htype, ⟨v, hv, hchannel⟩, ⟨w, hw, hsize⟩, hname⟩
  · rintro ⟨htype, ⟨v, hv, hchannel⟩, ⟨w, hw, hsize⟩, hname⟩
    exact ⟨_, htype, _, rfl, v, hv, _, hchannel, w, hw, _, hsize, _, hname, _, rfl, rfl⟩

theorem legacyDefinition_ok_iff {robot : Json} {d : RobotDefinition} :
    legacyDefinition robot = .ok d ↔ SaysLegacy robot d := by
  simp only [legacyDefinition, bind_ok_iff, toName_ok_iff, mapM_ok_iff, createIoFromLegacy,
    createIo_ok_iff]
  constructor
  · rintro ⟨_, hname, name, rfl, entries, hentries, hd⟩
    cases hd
    exact ⟨hname, hentries⟩
  · rintro ⟨hname, hentries⟩
    exact ⟨_, hname, _, rfl, _, hentries, rfl⟩

theorem compactDefinition_ok_iff {m : PduTypesMap} {robot : Json} {d : RobotDefinition} :
    compactDefinition m robot = .ok (some d) ↔ SaysCompact m robot d := by
  simp only [compactDefinition, bind_ok_iff, toName_ok_iff]
  constructor
  · rintro ⟨_, hname, name, rfl, _, hid, id, rfl, hd⟩
    cases hfind : m.find? fun p => p.1 == id with
    | none => simp [hfind, pure, Except.pure] at hd
    | some p =>
      simp only [hfind, bind_ok_iff, mapM_ok_iff, createIoCompact, createIo_ok_iff] at hd
      obtain ⟨entries, hentries, hd⟩ := hd
      cases hd
      exact ⟨hname, id, p.2, hid, by rw [hfind]; rfl, hentries⟩
  · rintro ⟨hname, id, pdutypes, hid, hfind, hentries⟩
    obtain ⟨p, hp, rfl⟩ := Option.map_eq_some_iff.mp hfind
    refine ⟨_, hname, d.name, rfl, _, hid, id, rfl, ?_⟩
    simp only [hp, bind_ok_iff, mapM_ok_iff, createIoCompact, createIo_ok_iff]
    exact ⟨_, hentries, rfl⟩

theorem untilNone_some_iff {β : Type} {f : Json → Access (Option β)} {js : List Json} {bs : List β} :
    untilNone f js = .ok (some bs) ↔ List.Forall₂ (fun j b => f j = .ok (some b)) js bs := by
  induction js generalizing bs with
  | nil => simp [untilNone, pure, Except.pure, eq_comm]
  | cons j js ih =>
    simp only [untilNone, bind_ok_iff, List.forall₂_cons_left_iff]
    constructor
    · rintro ⟨b, hb, hrest⟩
      cases b with
      | none => simp [pure, Except.pure] at hrest
      | some b =>
        simp only [bind_ok_iff, pure, Except.pure, Except.ok.injEq, Option.map_eq_some_iff] at hrest
        obtain ⟨_, hrest, rest, rfl, rfl⟩ := hrest
        exact ⟨b, rest, hb, ih.mp hrest, rfl⟩
    · rintro ⟨b, rest, hb, hrest, rfl⟩
      refine ⟨some b, hb, ?_⟩
      simp only [bind_ok_iff]
      exact ⟨some rest, ih.mpr hrest, rfl⟩

theorem find?_emplace (m : PduTypesMap) (f : Name × Json) (id : Name) :
    (m.emplace f.1 f.2).find? (fun p => p.1 == id) = (m ++ [f]).find? fun p => p.1 == id := by
  unfold PduTypesMap.emplace
  split
  · next hany =>
    rw [List.find?_append]
    by_cases hid : f.1 = id
    · subst hid
      obtain ⟨p, hp⟩ := Option.isSome_iff_exists.mp (List.find?_isSome.mpr (List.any_eq_true.mp hany))
      rw [hp, Option.some_or]
    · simp [hid]
  · rfl

theorem loadPduTypes_some_iff {file : Name → JsonFile} {dir : Name} {js : List Json}
    {m m' : PduTypesMap} :
    loadPduTypes file dir js m = .ok (some m') ↔ ∃ files,
      List.Forall₂ (NamesFile file dir) js files ∧
        files.foldl (fun m f => m.emplace f.1 f.2) m = m' := by
  induction js generalizing m with
  | nil => simp [loadPduTypes, pure, Except.pure]
  | cons j js ih =>
    simp only [loadPduTypes, bind_ok_iff, toName_ok_iff]
    constructor
    · rintro ⟨_, hid, id, rfl, _, hpath, path, rfl, hrest⟩
      cases hfile : file (hakoJoinPath dir path) with
      | unopened => simp [hfile, pure, Except.pure] at hrest
      | malformed => simp [hfile, pure, Except.pure] at hrest
      | parsed pdutypes =>
        simp only [hfile] at hrest
        obtain ⟨files, hfiles, hfold⟩ := ih.mp hrest
        exact ⟨(id, pdutypes) :: files, .cons ⟨hid, path, hpath, hfile⟩ hfiles, hfold⟩
    · rintro ⟨files, hfiles, hfold⟩
      cases hfiles with
      | cons hf hfiles =>
        obtain ⟨hid, path, hpath, hfile⟩ := hf
        refine ⟨_, hid, _, rfl, _, hpath, path, rfl, ?_⟩
        simp only [hfile]
        exact ih.mpr ⟨_, hfiles, hfold⟩

theorem find?_foldl_emplace (files : List (Name × Json)) (m : PduTypesMap) (id : Name) :
    (files.foldl (fun m f => m.emplace f.1 f.2) m).find? (fun p => p.1 == id) =
      (m ++ files).find? fun p => p.1 == id := by
  induction files generalizing m with
  | nil => simp
  | cons f files ih =>
    rw [List.foldl_cons, ih, List.find?_append, find?_emplace, ← List.find?_append, List.append_assoc]
    rfl

theorem SaysCompact.congr {files files' : List (Name × Json)}
    (h : ∀ id, files.find? (fun p => p.1 == id) = files'.find? fun p => p.1 == id) {robot : Json}
    {d : RobotDefinition} (hs : SaysCompact files robot d) : SaysCompact files' robot d := by
  obtain ⟨id, pdutypes, hid, hfind, hentries⟩ := hs.entries
  exact ⟨hs.name, id, pdutypes, hid, h id ▸ hfind, hentries⟩

theorem robotDefinitions_some_iff {file : Name → JsonFile} {configPath : Name} {param : Json}
    {ds : List RobotDefinition} :
    robotDefinitions file configPath param = .ok (some ds) ↔ Configures file configPath param ds := by
  unfold robotDefinitions Configures
  split
  · simp only [bind_ok_iff]
    constructor
    · rintro ⟨paths, hpaths, robots, hrobots, m, hm, hds⟩
      cases m with
      | none => simp [pure, Except.pure] at hds
      | some m =>
        obtain ⟨files, hfiles, rfl⟩ := loadPduTypes_some_iff.mp hm
        refine ⟨robots, hrobots, paths, files, hpaths, hfiles, ?_⟩
        refine (untilNone_some_iff.mp hds).imp fun robot d hd => ?_
        exact (compactDefinition_ok_iff.mp hd).congr fun id => find?_foldl_emplace files [] id
    · rintro ⟨robots, hrobots, paths, files, hpaths, hfiles, hds⟩
      refine ⟨paths, hpaths, robots, hrobots, _, loadPduTypes_some_iff.mpr ⟨files, hfiles, rfl⟩, ?_⟩
      refine untilNone_some_iff.mpr (hds.imp fun robot d hd => compactDefinition_ok_iff.mpr ?_)
      exact hd.congr fun id => (find?_foldl_emplace files [] id).symm
  · simp only [bind_ok_iff, mapM_ok_iff, legacyDefinition_ok_iff]
    constructor
    · rintro ⟨robots, hrobots, _, hds, heq⟩
      cases heq
      exact ⟨robots, hrobots, hds⟩
    · rintro ⟨robots, hrobots, hds⟩
      exact ⟨robots, hrobots, ds, hds, rfl⟩

/-- A configuration is accepted with the robots that it defines, each with every one of its PDUs
once. A number keeps its value exactly from the least to the greatest `int`. -/
theorem hakoAssetImplParseRobots_keepsEachPdu (file : Name → JsonFile) (configPath : Name)
    (param : Json) :
    (∀ robots, hakoAssetImplParseRobots file configPath param = .ok (some robots) ↔
      ∃ ds, Configures file configPath param ds ∧ robots = ds.map RobotDefinition.kept) ∧
    (∀ d : RobotDefinition, KeepsEachPdu d d.kept) ∧
    ∀ n : ℤ, (Json.integer n).toInt = .ok n ↔ -2 ^ 31 ≤ n ∧ n < 2 ^ 31 := by
  refine ⟨fun robots => ?_, RobotDefinition.kept_keepsEachPdu, fun n => ?_⟩
  · rw [hakoAssetImplParseRobots_eq]
    simp only [bind_ok_iff, ← robotDefinitions_some_iff]
    constructor
    · rintro ⟨ds, hds, heq⟩
      simp only [pure, Except.pure, Except.ok.injEq, Option.map_eq_some_iff] at heq
      obtain ⟨ds, rfl, rfl⟩ := heq
      exact ⟨ds, hds, rfl⟩
    · rintro ⟨ds, hds, rfl⟩
      exact ⟨some ds, hds, rfl⟩
  · rw [← Service.int32_eq_iff, Json.toInt, Except.ok.injEq]

def legacyPdu (channelId : ℤ) : Json :=
  .object [("type", .string [116]), ("org_name", .string [112]), ("channel_id", .integer channelId),
    ("pdu_size", .integer 8)]

def legacyRobot (channelIds : List ℤ) : Json :=
  .object [("robots", .array [.object [("name", .string [114]),
    ("shm_pdu_writers", .array (channelIds.map legacyPdu))]])]

/-- The channel 2^32 + 1 is read as 1, so that of the two PDUs one is kept. -/
theorem channels_merged : ∃ r,
    hakoAssetImplParseRobots (fun _ => .unopened) [] (legacyRobot [1, 4294967297]) =
      .ok (some [r]) ∧
    r.pdus.map PduIoEntry.triple = [([112], 1, 8)] ∧
    (legacyPdu 4294967297).member "channel_id" = .ok (.integer 4294967297) ∧
    ([112], 4294967297, 8) ∉ r.pdus.map PduIoEntry.triple :=
  ⟨⟨[114], [⟨⟨[116], 1, 8⟩, [112]⟩]⟩, rfl, rfl, rfl, by decide⟩

end PduConfig
end HakoniwaCorePro
