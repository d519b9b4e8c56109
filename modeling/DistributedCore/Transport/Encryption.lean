import DistributedCore.Library.OrderedMap
import DistributedCore.Library.Runs
import DistributedCore.Library.Sorting

/-!
# Encryption keys and their rotation

An `Encryption` holds keys under ids. A new key gets the number of keys plus one as its version and
becomes the current key. A rotation generates a key and then removes all keys but those with the
three greatest versions. A ciphertext carries the version of its key, and the key to decrypt it is
the first one that has this version.

Source: `src/transport/Encryption.ts`.
-/

namespace DistributedCore.Transport

open OrderedMap List

inductive Algorithm where
  | aes256gcm
  | chacha20poly1305
  deriving DecidableEq, Repr

abbrev Bytes := List UInt8

/-- An authenticated cipher, which decrypts what it has encrypted. -/
structure Aead where
  /-- The encrypted bytes and the tag. -/
  encrypt : Algorithm → (key iv plaintext : Bytes) → Bytes × Bytes
  /-- The plaintext, or `none` if the tag does not fit. -/
  decrypt : Algorithm → (key iv data tag : Bytes) → Option Bytes
  decrypt_encrypt : ∀ algorithm key iv plaintext,
    decrypt algorithm key iv (encrypt algorithm key iv plaintext).1
      (encrypt algorithm key iv plaintext).2 = some plaintext

structure EncryptionOptions where
  algorithm : Algorithm
  keySize : ℕ

/-- A key with its version. -/
structure KeyInfo where
  id : String
  key : Bytes
  version : ℕ
  createdAt : ℕ
  algorithm : Algorithm
  deriving DecidableEq

structure EncryptedData where
  data : Bytes
  iv : Bytes
  tag : Bytes
  keyVersion : ℕ
  algorithm : Algorithm

inductive EncryptionError where
  | notInitialized
  | keyNotFound (keyId : String)
  | keyVersionNotFound (keyVersion : ℕ)
  | rejected

/-- The keys by id, the one in use, and all that were added. -/
structure Encryption where
  options : EncryptionOptions
  keys : OrderedMap String KeyInfo
  currentKeyId : Option String
  added : List KeyInfo

def KeyInfo.seal (aead : Aead) (algorithm : Algorithm) (keyInfo : KeyInfo) (iv plaintext : Bytes) :
    EncryptedData :=
  let sealed := aead.encrypt algorithm keyInfo.key iv plaintext
  { data := sealed.1, iv := iv, tag := sealed.2, keyVersion := keyInfo.version,
    algorithm := algorithm }

namespace Encryption

def create (options : EncryptionOptions) : Encryption := ⟨options, .empty, none, []⟩

variable (s : Encryption)

def addKey (keyId : String) (key : Bytes) (now : ℕ) : Option Encryption :=
  if key.length ≠ s.options.keySize then none
  else
    let keyInfo : KeyInfo :=
      { id := keyId, key := key, version := s.keys.entries.length + 1, createdAt := now,
        algorithm := s.options.algorithm }
    some { s with keys := s.keys.set keyId keyInfo, added := s.added ++ [keyInfo] }

def useKey (keyId : String) (key : Bytes) (now : ℕ) : Option Encryption :=
  (s.addKey keyId key now).map fun s => { s with currentKeyId := some keyId }

def newKeyId (keyId : Option String) (randomId : String) : String :=
  match keyId with
  | none => randomId
  | some id => if id = "" then randomId else id

def generateNewKey (keyId : Option String) (randomId : String) (key : Bytes)
    (now : ℕ) : Option Encryption :=
  s.useKey (newKeyId keyId randomId) key now

def initialized (masterKey : Option Bytes) (randomKey : Bytes) (now : ℕ) : Option Encryption :=
  match masterKey with
  | some key => s.useKey "master" key now
  | none => s.generateNewKey (some "auto-generated") "" randomKey now

def getKeyVersions : List ℕ := (s.keys.values.map KeyInfo.version).insertionSort (· ≥ ·)

/-- The keys of all but the newest versions are removed. -/
def cleanupOldKeys (keepRecentVersions : ℕ) : Encryption :=
  let versionsToRemove := s.getKeyVersions.drop keepRecentVersions
  { s with keys := s.keys.filter fun _ keyInfo => keyInfo.version ∉ versionsToRemove }

def rotateKeys (randomId : String) (key : Bytes) (now : ℕ) : Option Encryption :=
  (s.generateNewKey none randomId key now).map fun s => s.cleanupOldKeys 3

variable (aead : Aead)

def encrypt (s : Encryption) (iv data : Bytes) : Except EncryptionError EncryptedData :=
  match s.currentKeyId with
  | none => .error .notInitialized
  | some currentKeyId =>
    match s.keys.get currentKeyId with
    | none => .error (.keyNotFound currentKeyId)
    | some keyInfo => .ok (keyInfo.seal aead s.options.algorithm iv data)

def decrypt (s : Encryption) (encryptedData : EncryptedData) : Except EncryptionError Bytes :=
  match s.keys.values.find? fun k => k.version = encryptedData.keyVersion with
  | none => .error (.keyVersionNotFound encryptedData.keyVersion)
  | some keyInfo =>
    match aead.decrypt encryptedData.algorithm keyInfo.key encryptedData.iv encryptedData.data
        encryptedData.tag with
    | none => .error .rejected
    | some data => .ok data

end Encryption

/-! ### Runs -/

inductive EncryptionCall where
  | init (masterKey : Option Bytes) (randomKey : Bytes) (now : ℕ)
  | generateNewKey (keyId : Option String) (randomId : String) (key : Bytes) (now : ℕ)
  | rotateKeys (randomId : String) (key : Bytes) (now : ℕ)

namespace EncryptionCall

def keyId : EncryptionCall → String
  | init (some _) _ _ => "master"
  | init none _ _ => "auto-generated"
  | generateNewKey keyId randomId _ _ => Encryption.newKeyId keyId randomId
  | rotateKeys randomId _ _ => randomId

def key : EncryptionCall → Bytes
  | init (some key) _ _ => key
  | init none key _ => key
  | generateNewKey _ _ key _ => key
  | rotateKeys _ key _ => key

def now : EncryptionCall → ℕ
  | init _ _ now => now
  | generateNewKey _ _ _ now => now
  | rotateKeys _ _ now => now

def isRotation : EncryptionCall → Bool
  | rotateKeys .. => true
  | _ => false

/-- The id is new, and no key has a version above their number. -/
def Counts (s : Encryption) (call : EncryptionCall) : Prop :=
  ∀ k ∈ s.keys.values, k.id ≠ call.keyId ∧ k.version ≤ s.keys.entries.length

instance (s : Encryption) (call : EncryptionCall) : Decidable (call.Counts s) :=
  List.decidableBAll _ _

end EncryptionCall

namespace Encryption

def step (s : Encryption) : EncryptionCall → Option Encryption
  | .init masterKey randomKey now => s.initialized masterKey randomKey now
  | .generateNewKey keyId randomId key now => s.generateNewKey keyId randomId key now
  | .rotateKeys randomId key now => s.rotateKeys randomId key now

/-- The versions of the keys are distinct, encryption does not throw, and what was encrypted with
one of the last three keys is decrypted. -/
structure Works (aead : Aead) (s : Encryption) : Prop where
  versions : (s.keys.values.map KeyInfo.version).Nodup
  encrypt : ∀ iv data, ∃ encrypted, s.encrypt aead iv data = .ok encrypted
  decrypt : ∀ keyInfo ∈ s.added.drop (s.added.length - 3), ∀ iv data,
    s.decrypt aead (keyInfo.seal aead s.options.algorithm iv data) = .ok data

/-! ### What a call does -/

def newKey (s : Encryption) (call : EncryptionCall) : KeyInfo where
  id := call.keyId
  key := call.key
  version := s.keys.entries.length + 1
  createdAt := call.now
  algorithm := s.options.algorithm

def withKey (s : Encryption) (call : EncryptionCall) : Encryption :=
  { s with
    keys := s.keys.set call.keyId (s.newKey call)
    added := s.added ++ [s.newKey call]
    currentKeyId := some call.keyId }

variable {s s' : Encryption} {call : EncryptionCall}

/-- **What a call does**: it adds its key, and a rotation cleans up. -/
theorem step_eq (h : s.step call = some s') :
    s' = if call.isRotation then (s.withKey call).cleanupOldKeys 3 else s.withKey call := by
  have huse : ∀ {keyId key now} {s' : Encryption}, s.useKey keyId key now = some s' →
      keyId = call.keyId → key = call.key → now = call.now → s' = s.withKey call := by
    rintro keyId key now s' huse rfl rfl rfl
    rw [useKey, addKey] at huse
    split_ifs at huse
    · cases huse
    · exact (Option.some.inj huse).symm
  cases call with
  | init masterKey =>
    cases masterKey with
    | none => exact huse h rfl rfl rfl
    | some => exact huse h rfl rfl rfl
  | generateNewKey => exact huse h rfl rfl rfl
  | rotateKeys =>
    obtain ⟨s₁, hs₁, rfl⟩ := Option.map_eq_some_iff.mp h
    rw [huse hs₁ rfl rfl rfl]
    rfl

theorem added_ne_nil_step (h : s.step call = some s') : s'.added ≠ [] := by
  rw [step_eq h]
  split_ifs <;> exact append_ne_nil_of_right_ne_nil _ (cons_ne_nil _ _)

/-! ### Numbered keys -/

/-- Every key is numbered by its place among all that were added, and the keys that are left are the
last ones: all of them, or three. -/
structure Numbered (s : Encryption) : Prop where
  ids : ∀ k keyInfo, s.keys.get k = some keyInfo → keyInfo.id = k
  versions : s.added.map KeyInfo.version = List.range' 1 s.added.length
  retained : ∃ dropped, s.added = dropped ++ s.keys.values ∧
    (dropped = [] ∨ s.keys.values.length = 3)
  current : s.currentKeyId = s.added.getLast?.map KeyInfo.id

namespace Numbered

theorem create (options : EncryptionOptions) : Numbered (create options) :=
  ⟨(fun _ _ h => by cases h), rfl, ⟨[], rfl, .inl rfl⟩, rfl⟩

section

variable (h : Numbered s)

include h

variable {dropped : List KeyInfo}

theorem versions_values (hdropped : s.added = dropped ++ s.keys.values) :
    s.keys.values.map KeyInfo.version = List.range' (dropped.length + 1) s.keys.values.length := by
  have hversions := h.versions
  rw [hdropped, map_append, length_append, ← range'_append_1] at hversions
  have htail := append_inj_right hversions (by simp)
  rw [htail, Nat.add_comm]

theorem pairwise_version : s.keys.values.Pairwise fun a b => a.version < b.version := by
  obtain ⟨dropped, hdropped, -⟩ := h.retained
  refine pairwise_map.mp ?_
  rw [h.versions_values hdropped]
  exact pairwise_lt_range'

theorem mem_values {keyInfo : KeyInfo} (hmem : keyInfo ∈ s.keys.values) :
    s.keys.get keyInfo.id = some keyInfo := by
  obtain ⟨k, hk⟩ := (s.keys.mem_values_iff keyInfo).mp hmem
  rw [h.ids k keyInfo hk]
  exact hk

theorem forall_version_le_iff (hdropped : s.added = dropped ++ s.keys.values)
    (hlength : dropped = [] ∨ s.keys.values.length = 3) :
    (∀ k ∈ s.keys.values, k.version ≤ s.keys.entries.length) ↔ dropped = [] := by
  have hsize : s.keys.entries.length = s.keys.values.length := (length_map _).symm
  have hversions := h.versions_values hdropped
  rw [hsize]
  constructor
  · intro hle
    rcases hlength with hnil | hthree
    · exact hnil
    have hlast : dropped.length + 3 ∈ s.keys.values.map KeyInfo.version := by
      rw [hversions, hthree]
      simp
    obtain ⟨k, hk, hversion⟩ := mem_map.mp hlast
    have := hle k hk
    exact length_eq_zero_iff.mp (by omega)
  · rintro rfl k hk
    have hmem := mem_map_of_mem (f := KeyInfo.version) hk
    rw [hversions, mem_range'_1] at hmem
    simp only [length_nil] at hmem
    omega

theorem withKey (hcounts : call.Counts s) :
    Numbered (s.withKey call) ∧ (s.withKey call).added = (s.withKey call).keys.values := by
  obtain ⟨dropped, hdropped, hlength⟩ := h.retained
  obtain rfl := (h.forall_version_le_iff hdropped hlength).mp fun k hk => (hcounts k hk).2
  rw [nil_append] at hdropped
  have hnew : s.keys.get call.keyId = none := by
    cases hget : s.keys.get call.keyId with
    | none => rfl
    | some keyInfo =>
      have hmem := (s.keys.mem_values_iff keyInfo).mpr ⟨_, hget⟩
      exact absurd (h.ids _ _ hget) (hcounts keyInfo hmem).1
  have hvalues : (s.withKey call).keys.values = s.keys.values ++ [s.newKey call] :=
    values_set_of_get_eq_none hnew _
  have hadded : (s.withKey call).added = s.added ++ [s.newKey call] := rfl
  have hall : (s.withKey call).added = (s.withKey call).keys.values := by
    rw [hvalues, hadded, hdropped]
  refine ⟨⟨fun k keyInfo hget => ?_, ?_, ⟨[], hall, .inl rfl⟩, ?_⟩, hall⟩
  · have hset : (s.keys.set call.keyId (s.newKey call)).get k = some keyInfo := hget
    rw [get_set] at hset
    split_ifs at hset with hk
    · cases hset
      exact hk.symm
    · exact h.ids k keyInfo hset
  · have hsize : s.keys.entries.length = s.added.length := by
      rw [hdropped]
      exact (length_map _).symm
    rw [hadded, map_append, h.versions, length_append, length_singleton, range'_concat]
    simp [newKey, hsize, Nat.add_comm]
  · rw [hadded]
    simp [Encryption.withKey, newKey]

theorem cleanupOldKeys (hall : s.added = s.keys.values) : Numbered (s.cleanupOldKeys 3) := by
  have hvalues : (s.cleanupOldKeys 3).keys.values = s.keys.values.drop (s.keys.values.length - 3) :=
    (values_filter _ _).trans (filter_greatest_eq_drop KeyInfo.version h.pairwise_version 3)
  refine ⟨fun k keyInfo hget => ?_, h.versions, ⟨s.keys.values.take (s.keys.values.length - 3),
    ?_, ?_⟩, h.current⟩
  · have hfilter := get_filter (fun _ (keyInfo : KeyInfo) =>
      decide (keyInfo.version ∉ s.getKeyVersions.drop 3)) s.keys k
    exact h.ids k keyInfo (Option.filter_eq_some_iff.mp (hfilter.symm.trans hget)).1
  · rw [hvalues, take_append_drop]
    exact hall
  · rw [hvalues, take_eq_nil_iff, length_drop]
    omega

/-- **A call that counts keeps the keys numbered.** -/
theorem step (hcounts : call.Counts s) (hstep : s.step call = some s') : Numbered s' := by
  obtain ⟨hwith, hall⟩ := h.withKey hcounts
  rw [step_eq hstep]
  split_ifs
  · exact hwith.cleanupOldKeys hall
  · exact hwith

theorem recent_subset : s.added.drop (s.added.length - 3) ⊆ s.keys.values := by
  obtain ⟨dropped, hdropped, rfl | hlength⟩ := h.retained
  · rw [hdropped, nil_append]
    exact drop_subset _ _
  · have hdrop : s.added.drop (s.added.length - 3) = s.keys.values := by
      rw [hdropped, length_append, hlength, Nat.add_sub_cancel, drop_left]
    rw [hdrop]
    exact fun _ hmem => hmem

theorem getLast_mem_values {last : KeyInfo} (hlast : s.added.getLast? = some last) :
    last ∈ s.keys.values := by
  refine h.recent_subset (mem_of_getLast? ?_)
  have hpos : s.added ≠ [] := by
    rintro hnil
    rw [hnil] at hlast
    cases hlast
  rw [getLast?_drop, if_neg, hlast]
  have := length_pos_iff.mpr hpos
  omega

/-- **Numbered keys work**, as soon as there is one. -/
theorem works (hadded : s.added ≠ []) (aead : Aead) : Works aead s := by
  have hnodup : (s.keys.values.map KeyInfo.version).Nodup :=
    (pairwise_map.mpr h.pairwise_version).imp fun hlt => hlt.ne
  refine ⟨hnodup, fun iv data => ?_, fun keyInfo hmem iv data => ?_⟩
  · have hlast := getLast?_eq_some_getLast hadded
    have hcurrent := h.current
    rw [hlast, Option.map_some] at hcurrent
    refine ⟨(s.added.getLast hadded).seal aead s.options.algorithm iv data, ?_⟩
    rw [Encryption.encrypt, hcurrent]
    dsimp only
    rw [h.mem_values (h.getLast_mem_values hlast)]
  · have hvalues := h.recent_subset hmem
    have hfind : s.keys.values.find? (fun k => k.version = keyInfo.version) = some keyInfo := by
      cases hfind : s.keys.values.find? fun k => k.version = keyInfo.version with
      | none => simpa using find?_eq_none.mp hfind keyInfo hvalues
      | some found =>
        have hversion : found.version = keyInfo.version := by simpa using find?_some hfind
        exact congrArg some (inj_on_of_nodup_map hnodup (mem_of_find?_eq_some hfind)
          hvalues hversion)
    rw [Encryption.decrypt]
    have hversion : (keyInfo.seal aead s.options.algorithm iv data).keyVersion = keyInfo.version :=
      rfl
    rw [hversion, hfind]
    simp [KeyInfo.seal, aead.decrypt_encrypt]

/-- **The rotation after a cleanup.** Once a cleanup has dropped keys, the next rotation gives the
version 4 again. If the version is in use, it is in use twice; otherwise the cleanup removes the new
key. -/
theorem not_works_of_dropped (hdropped : s.added = dropped ++ s.keys.values) (hne : dropped ≠ [])
    (hlength : s.keys.values.length = 3) (hrotation : call.isRotation = true)
    (hnew : ∀ k ∈ s.keys.values, k.id ≠ call.keyId) (hstep : s.step call = some s') (aead : Aead) :
    ¬Works aead s' := by
  intro hworks
  have hkeys : (s.withKey call).keys.values = s.keys.values ++ [s.newKey call] := by
    refine values_set_of_get_eq_none (Option.eq_none_iff_forall_ne_some.mpr ?_) _
    intro keyInfo hget
    exact hnew keyInfo ((s.keys.mem_values_iff keyInfo).mpr ⟨_, hget⟩) (h.ids _ _ hget)
  have hsize : s.keys.entries.length = 3 := (length_map _).symm.trans hlength
  have hversions : (s.withKey call).keys.values.map KeyInfo.version =
      [dropped.length + 1, dropped.length + 2, dropped.length + 3, 4] := by
    rw [hkeys, map_append, h.versions_values hdropped, hlength]
    simp [newKey, hsize, List.range']
  rw [step_eq hstep, if_pos hrotation] at hworks
  -- the new key is still there
  have hcurrent : 4 ∉ (s.withKey call).getKeyVersions.drop 3 := by
    obtain ⟨encrypted, hencrypted⟩ := hworks.encrypt [] []
    rw [Encryption.encrypt] at hencrypted
    have hget : ((s.withKey call).cleanupOldKeys 3).keys.get call.keyId =
        (some (s.newKey call)).filter fun keyInfo =>
          keyInfo.version ∉ (s.withKey call).getKeyVersions.drop 3 :=
      (get_filter _ _ _).trans (congrArg _ (get_set_self ..))
    intro hmem
    have hversion : (s.newKey call).version = 4 := congrArg (· + 1) hsize
    rw [Option.filter_some, if_neg (by simpa [hversion] using hmem)] at hget
    have hid : ((s.withKey call).cleanupOldKeys 3).currentKeyId = some call.keyId := rfl
    simp only [hid, hget] at hencrypted
    cases hencrypted
  have hnodup := hworks.versions
  have hvalues : ((s.withKey call).cleanupOldKeys 3).keys.values =
      (s.withKey call).keys.values.filter fun keyInfo =>
        keyInfo.version ∉ (s.withKey call).getKeyVersions.drop 3 := values_filter _ _
  have hfilter : ((s.withKey call).keys.values.filter fun keyInfo =>
      keyInfo.version ∉ (s.withKey call).getKeyVersions.drop 3).map KeyInfo.version =
        ((s.withKey call).keys.values.map KeyInfo.version).filter
          fun version => version ∉ (s.withKey call).getKeyVersions.drop 3 := by
    rw [filter_map]
    rfl
  rw [hvalues, hfilter, getKeyVersions, hversions] at hnodup
  rw [getKeyVersions, hversions] at hcurrent
  have hpos := length_pos_iff.mpr hne
  rcases Nat.lt_or_ge dropped.length 3 with hlt | hge
  · obtain hd | hd : dropped.length = 1 ∨ dropped.length = 2 := by omega
    all_goals
      rw [hd] at hnodup
      exact absurd hnodup (by decide)
  · have hsort : [dropped.length + 1, dropped.length + 2, dropped.length + 3, 4].insertionSort
        (· ≥ ·) = [dropped.length + 3, dropped.length + 2, dropped.length + 1, 4] := by
      refine List.Perm.eq_of_pairwise (fun a b _ _ hab hba => le_antisymm hba hab)
        (pairwise_insertionSort _ _) (by simp; omega) ?_
      exact (perm_insertionSort _ _).trans ((reverse_perm
        [dropped.length + 3, dropped.length + 2, dropped.length + 1]).append_right [4])
    rw [hsort] at hcurrent
    exact hcurrent mem_cons_self

end

end Numbered

/-- **When the keys work.** Along every run of calls that each add a key under a new id while the
versions count the keys, the versions stay distinct, encryption does not throw, and what was
encrypted with the last three keys is decrypted. After such a run, and a rotation under a new id,
this is the case only if the versions still counted the keys. -/
theorem works_of_run (aead : Aead) (options : EncryptionOptions) (calls : List EncryptionCall)
    (s : Encryption) (hrun : exec step (create options) calls = some s)
    (hcounts : AllSteps step (fun s call => call.Counts s) (create options) calls) :
    (calls ≠ [] → Works aead s) ∧ ∀ randomId key now s', (∀ k ∈ s.keys.values, k.id ≠ randomId) →
        s.step (.rotateKeys randomId key now) = some s' →
          (Works aead s' ↔ ∀ k ∈ s.keys.values, k.version ≤ s.keys.entries.length) := by
  have hnumbered : Numbered s := by
    refine exec_invariant ?_ (Numbered.create options) hcounts hrun
    exact fun s call s' h hcounts hstep => h.step hcounts hstep
  refine ⟨fun hcalls => hnumbered.works ?_ aead, fun randomId key now s' hnew hstep => ?_⟩
  · obtain ⟨call, calls, rfl⟩ := exists_cons_of_ne_nil hcalls
    obtain ⟨s₁, hs₁, hrest⟩ := exec_cons_eq_some.mp hrun
    refine exec_invariant (P := fun s => s.added ≠ []) ?_ (added_ne_nil_step hs₁)
      (allSteps_true _ _ _) hrest
    exact fun s call s' _ _ hstep => added_ne_nil_step hstep
  · have hnew' : ∀ k ∈ s.keys.values, k.id ≠ (EncryptionCall.rotateKeys randomId key now).keyId :=
      hnew
    obtain ⟨dropped, hdropped, hlength⟩ := hnumbered.retained
    constructor
    · intro hworks
      refine (hnumbered.forall_version_le_iff hdropped hlength).mpr (by_contra fun hne => ?_)
      exact hnumbered.not_works_of_dropped hdropped hne (hlength.resolve_left hne) rfl hnew'
        hstep aead hworks
    · intro hle
      have hcounts' : (EncryptionCall.rotateKeys randomId key now).Counts s :=
        fun k hk => ⟨hnew' k hk, hle k hk⟩
      exact (hnumbered.step hcounts' hstep).works (added_ne_nil_step hstep) aead

def openAead : Aead where
  encrypt _ key _ plaintext := (plaintext, key)
  decrypt _ key _ data tag := if tag = key then some data else none
  decrypt_encrypt _ _ _ _ := if_pos rfl

def shortKeys : EncryptionOptions := ⟨.aes256gcm, 1⟩

def rotation (n : ℕ) : EncryptionCall := .rotateKeys ("key-" ++ toString n) [UInt8.ofNat n] n

def threeRotations : List EncryptionCall := [.init none [0] 0, rotation 1, rotation 2, rotation 3]

/-- After the fourth rotation two keys have version 4. -/
theorem keys_fail_after_rotations :
    ¬∀ (aead : Aead) (options : EncryptionOptions) (calls : List EncryptionCall) (s : Encryption),
      exec step (create options) calls = some s → calls ≠ [] → Works aead s := by
  intro h
  have hworks := h openAead shortKeys (threeRotations ++ [rotation 4]) _ rfl (by simp)
  exact absurd hworks.versions (by decide +kernel)

/-- The theorem at three rotations. -/
theorem works_three_rotations :
    ∃ s, exec step (create shortKeys) threeRotations = some s ∧ Works openAead s :=
  ⟨_, rfl, (works_of_run openAead shortKeys threeRotations _ rfl (by decide +kernel)).1
    (by simp [threeRotations])⟩

end Encryption

end DistributedCore.Transport
