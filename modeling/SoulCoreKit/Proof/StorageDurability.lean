import SoulCoreKit.Proof.KeyDerivation
import SoulCoreKit.Lib.Run

/-!
# What is stored survives

Several objects with one master password use the storage, each call after the other. An entry is stored
when a call on an object in use says so; an object is in use from an `init` that succeeded to its
`shutdown`. What an object in use retrieves is what was stored last, along every run in which one object
is in use at a time, nothing is stored when `init` finds no salt, and the other objects are left alone.
-/

namespace SoulCoreKit.Auth

/-! ### The key -/

section Key

variable (sha : Sha256) (password : Bytes)

theorem keyOf_ne_nil (salt : Bytes) : AesSecureStorage.keyOf sha password salt ≠ [] := by
  intro hnil
  have hiterations : 1 ≤ 100000 := by decide
  have hlength := length_pbkdf2Derive sha password salt hiterations 32
  rw [AesSecureStorage.keyOf] at hnil
  rw [hnil] at hlength
  cases hlength

end Key

/-! ### Encryption -/

theorem xorEncrypt_xorEncrypt (data key iv : Bytes) :
    xorEncrypt (xorEncrypt data key iv) key iv = data := by
  have hbyte : ∀ a b c : UInt8, a ^^^ b ^^^ c ^^^ b ^^^ c = a := by
    intro a b c
    rw [UInt8.xor_assoc a b c, UInt8.xor_assoc, UInt8.xor_assoc, UInt8.xor_self, UInt8.xor_zero]
  rw [xorEncrypt, xorEncrypt, List.mapIdx_mapIdx]
  simp only [Function.comp_def, hbyte]
  exact List.ext_getElem (by simp) (by simp)

theorem decrypt_encrypt (key : Bytes) (iv : RandomBytes) (plaintext : Bytes) :
    decrypt key (encrypt key iv plaintext) = plaintext := by
  obtain ⟨iv, hiv⟩ := iv
  have hlength : ¬ (iv ++ xorEncrypt plaintext key iv).length < 16 := by
    rw [List.length_append, hiv]
    omega
  rw [decrypt, encrypt, Base64.decode_encode, if_neg hlength, List.drop_left' hiv, List.take_left' hiv,
    xorDecrypt, xorEncrypt_xorEncrypt]

/-! ### The data file -/

theorem splitLines_append {line : List Char} (hline : '\n' ∉ line) (rest : List Char) :
    splitLines (line ++ '\n' :: rest) = line :: splitLines rest := by
  induction line with
  | nil => simp [splitLines]
  | cons c line ih =>
    rw [List.mem_cons, not_or] at hline
    rw [List.cons_append, splitLines, if_neg (Ne.symm hline.1), ih hline.2]

section File

variable {Text : Type} [DecidableEq Text] (utf8 : Utf8 Text)

/-- No value has a line of its own. -/
def Clean (entries : Entries Text) : Prop := ∀ key value, entries.lookup key = some value → '\n' ∉ value

theorem clean_insert {entries : Entries Text} (hclean : Clean entries) (key : Text) {value : List Char}
    (hvalue : '\n' ∉ value) : Clean (entries.insert key value) := by
  intro other stored hstored
  by_cases hkey : other = key
  · rw [hkey, AList.lookup_insert, Option.some.injEq] at hstored
    rw [← hstored]
    exact hvalue
  · rw [AList.lookup_insert_ne hkey] at hstored
    exact hclean other stored hstored

theorem clean_erase {entries : Entries Text} (hclean : Clean entries) (key : Text) :
    Clean (entries.erase key) := by
  intro other stored hstored
  by_cases hkey : other = key
  · rw [hkey, AList.lookup_erase] at hstored
    cases hstored
  · rw [AList.lookup_erase_ne hkey] at hstored
    exact hclean other stored hstored

theorem clean_empty : Clean (∅ : Entries Text) := by
  intro key value hvalue
  rw [AList.lookup_empty] at hvalue
  cases hvalue

theorem notMem_encode_of_notMem_alphabet {c : Char} (hnot : c ∉ '=' :: Base64.alphabet) (bytes : Bytes) :
    c ∉ Base64.encode bytes :=
  fun hmem => hnot (Base64.encode_mem hmem)

theorem newline_notMem_encode (bytes : Bytes) : '\n' ∉ Base64.encode bytes :=
  notMem_encode_of_notMem_alphabet (by decide +kernel) bytes

/-- A line without its end. -/
def lineOf (entry : Sigma fun _ : Text => List Char) : List Char :=
  Base64.encode (utf8.encode entry.1) ++ ':' :: entry.2

theorem idxOf?_append_cons {front : List Char} {c : Char} (hfront : c ∉ front) (rest : List Char) :
    (front ++ c :: rest).idxOf? c = some front.length := by
  induction front with
  | nil => simp [List.idxOf?_cons]
  | cons first front ih =>
    rw [List.mem_cons, not_or] at hfront
    rw [List.cons_append, List.idxOf?_cons, ih hfront.2]
    simp [Ne.symm hfront.1]

theorem loadLine_lineOf (entries : Entries Text) (entry : Sigma fun _ : Text => List Char) :
    loadLine utf8 entries (lineOf utf8 entry) = entries.insert entry.1 entry.2 := by
  have hcolon : ':' ∉ Base64.encode (utf8.encode entry.1) :=
    notMem_encode_of_notMem_alphabet (by decide +kernel) _
  have hne : (lineOf utf8 entry).isEmpty = false := by simp [lineOf]
  rw [loadLine, hne, lineOf, idxOf?_append_cons hcolon]
  simp [Base64.decode_encode, utf8.decode_encode]

omit [DecidableEq Text] in
theorem splitLines_flatMap {entries : List (Sigma fun _ : Text => List Char)}
    (hclean : ∀ entry ∈ entries, '\n' ∉ entry.2) :
    splitLines (entries.flatMap (entryLine utf8)) = entries.map (lineOf utf8) ++ [[]] := by
  induction entries with
  | nil => rfl
  | cons entry rest ih =>
    rw [List.forall_mem_cons] at hclean
    have hline : '\n' ∉ lineOf utf8 entry := by
      intro hmem
      rw [lineOf, List.mem_append, List.mem_cons] at hmem
      rcases hmem with hkey | hcolon | hvalue
      · exact newline_notMem_encode _ hkey
      · cases hcolon
      · exact hclean.1 hvalue
    have hentry : entryLine utf8 entry = lineOf utf8 entry ++ ['\n'] := by
      simp [entryLine, lineOf]
    rw [List.flatMap_cons, hentry, List.append_assoc, List.singleton_append, splitLines_append hline,
      ih hclean.2, List.map_cons, List.cons_append]

theorem lookup_foldl_insert (list : List (Sigma fun _ : Text => List Char)) (hnodup : list.NodupKeys)
    (entries : Entries Text) (key : Text) :
    (list.foldl (fun entries entry => entries.insert entry.1 entry.2) entries).lookup key =
      (list.dlookup key).or (entries.lookup key) := by
  induction list generalizing entries with
  | nil => rfl
  | cons entry rest ih =>
    obtain ⟨first, value⟩ := entry
    rw [List.nodupKeys_cons] at hnodup
    rw [List.foldl_cons, ih hnodup.2]
    by_cases hkey : key = first
    · subst hkey
      rw [List.dlookup_cons_eq, List.dlookup_eq_none.mpr hnodup.1, Option.none_or, Option.some_or]
      exact AList.lookup_insert entries
    · rw [List.dlookup_cons_ne _ _ hkey]
      exact congrArg _ (AList.lookup_insert_ne hkey)

/-- What a file written by `persistToDisk` brings back. -/
theorem lookup_load_serialize {written : Entries Text} (hclean : Clean written) (entries : Entries Text)
    (key : Text) :
    ((splitLines (serializeEntries utf8 written)).foldl (loadLine utf8) entries).lookup key =
      (written.lookup key).or (entries.lookup key) := by
  have hvalues : ∀ entry ∈ written.entries, '\n' ∉ entry.2 := fun entry hmem =>
    hclean entry.1 entry.2 (AList.mem_lookup_iff.mpr hmem)
  have hloaded : (written.entries.map (lineOf utf8)).foldl (loadLine utf8) entries =
      written.entries.foldl (fun entries entry => entries.insert entry.1 entry.2) entries := by
    rw [List.foldl_map]
    simp only [loadLine_lineOf]
  rw [serializeEntries, splitLines_flatMap utf8 hvalues, List.foldl_append, hloaded]
  exact lookup_foldl_insert written.entries written.nodupKeys entries key

/-- What the data file holds. -/
structure Holds (disk : Disk) (file : Entries Text) : Prop where
  clean : Clean file
  tokens : disk.tokens = none ∧ file = ∅ ∨ disk.tokens = some (serializeEntries utf8 file)

theorem Holds.lookup_load {disk : Disk} {file : Entries Text} (hholds : Holds utf8 disk file)
    (entries : Entries Text) (key : Text) :
    (loadFromDisk utf8 disk entries).lookup key = (file.lookup key).or (entries.lookup key) := by
  obtain ⟨hclean, ⟨hnone, rfl⟩ | hsome⟩ := hholds
  · rw [loadFromDisk, hnone, AList.lookup_empty, Option.none_or]
  · rw [loadFromDisk, hsome]
    exact lookup_load_serialize utf8 hclean entries key

end File

/-! ### Runs -/

namespace System

variable {Text Id : Type} [DecidableEq Text] (utf8 : Utf8 Text) (sha : Sha256)
  (masterPassword : Bytes)

/-- The data file has no entry. -/
def NothingStored (disk : Disk) : Prop := ∀ key, (loadFromDisk utf8 disk ∅).lookup key = none

/-- `init` while no other object is in use and, where there is no salt yet, nothing is stored; `store` on
an object in use, or on one that refuses it; `remove` and `clear` on an object in use, or where they
cannot write or have nothing to destroy. -/
def Proper (system : System Text Id) (call : Id × Operation Text) : Prop :=
  match call.2 with
  | .init _ _ =>
      (∀ other, other ≠ call.1 → system.inUse other = false) ∧
        (system.disk.salt = none → NothingStored utf8 system.disk)
  | .store _ _ _ => system.inUse call.1 = true ∨ (system.objects call.1).mEncryptionKey = []
  | .remove _ | .clear =>
      system.inUse call.1 = true ∨ system.disk.directory = false ∨ NothingStored utf8 system.disk
  | .retrieve _ | .shutdown => True

/-- An object in use retrieves what was stored last. -/
def Durable (system : System Text Id) : Prop :=
  ∀ id, system.inUse id = true → ∀ key,
    (system.objects id).retrieve utf8 key =
      match system.stored key with
      | some value => .ok value
      | none => .error ⟨.notFound, "Key not found in secure storage"⟩

/-- The entries are what is stored, under this key. -/
def ReadAs (stored : Text → Option Text) (file : Entries Text) (key : Bytes) : Prop :=
  ∀ name encrypted, file.lookup name = some encrypted →
    stored name = some (utf8.decode (decrypt key encrypted))

theorem readAs_of_lookup_eq_none {stored : Text → Option Text} {file : Entries Text}
    (hnone : ∀ name, file.lookup name = none) (key : Bytes) : ReadAs utf8 stored file key := by
  intro name encrypted hfound
  rw [hnone name] at hfound
  cases hfound

/-- What an object in use has in memory. -/
structure UpToDate (disk : Disk) (stored : Text → Option Text) (file : Entries Text)
    (object : AesSecureStorage Text) : Prop where
  keyed : object.mEncryptionKey ≠ []
  entries : ∀ name, object.mEntries.lookup name = file.lookup name
  readAs : ReadAs utf8 stored file object.mEncryptionKey
  salted : ∀ salt, disk.salt = some salt →
    object.mEncryptionKey = AesSecureStorage.keyOf sha masterPassword salt

structure Inv (system : System Text Id) (file : Entries Text) : Prop where
  holds : Holds utf8 system.disk file
  directory : system.disk.directory = false →
    system.disk.salt = none ∧ file = ∅ ∧ ∀ id, system.inUse id = false
  unused : ∀ id, system.inUse id = false → (system.objects id).mEntries = ∅
  one : ∀ id other, system.inUse id = true → system.inUse other = true → id = other
  absent : ∀ name, file.lookup name = none → system.stored name = none
  salted : ∀ salt, system.disk.salt = some salt →
    ReadAs utf8 system.stored file (AesSecureStorage.keyOf sha masterPassword salt)
  used : ∀ id, system.inUse id = true →
    UpToDate utf8 sha masterPassword system.disk system.stored file (system.objects id)

variable {utf8 sha masterPassword} {system : System Text Id} {file : Entries Text}

theorem inv_start : Inv utf8 sha masterPassword ({} : System Text Id) ∅ where
  holds := ⟨clean_empty, .inl ⟨rfl, rfl⟩⟩
  directory _ := ⟨rfl, rfl, fun _ => rfl⟩
  unused _ _ := rfl
  one _ _ hid _ := by cases hid
  absent _ _ := rfl
  salted _ hsalt := by cases hsalt
  used _ hid := by cases hid

theorem Inv.durable (hinv : Inv utf8 sha masterPassword system file) : Durable utf8 system := by
  intro id hid key
  have hused := hinv.used id hid
  have hkeyed : (system.objects id).mEncryptionKey.isEmpty = false := by
    rw [List.isEmpty_eq_false_iff]
    exact hused.keyed
  rw [AesSecureStorage.retrieve, hkeyed, hused.entries key]
  cases hfile : file.lookup key with
  | none => rw [hinv.absent key hfile]; rfl
  | some encrypted => rw [hused.readAs key encrypted hfile]; rfl

theorem Inv.lookup_eq_none (hinv : Inv utf8 sha masterPassword system file)
    (hnothing : NothingStored utf8 system.disk) (name : Text) : file.lookup name = none := by
  have hload := hinv.holds.lookup_load utf8 ∅ name
  rw [hnothing name, AList.lookup_empty, Option.or_none] at hload
  exact hload.symm

theorem Inv.emptied (hinv : Inv utf8 sha masterPassword system file)
    (hnothing : NothingStored utf8 system.disk) :
    Inv utf8 sha masterPassword { system with
      disk := { system.disk with tokens := some (serializeEntries utf8 (∅ : Entries Text)) } } ∅ := by
  have hnone := hinv.lookup_eq_none hnothing
  have hread : ∀ key, ReadAs utf8 system.stored ∅ key :=
    readAs_of_lookup_eq_none utf8 fun name => AList.lookup_empty name
  refine ⟨⟨clean_empty, .inr rfl⟩, ?_, hinv.unused, hinv.one, ?_, fun salt _ => hread _, ?_⟩
  · intro hdirectory
    obtain ⟨hsalt, -, hunused⟩ := hinv.directory hdirectory
    exact ⟨hsalt, rfl, hunused⟩
  · intro name _
    exact hinv.absent name (hnone name)
  · intro id hid
    have hused := hinv.used id hid
    refine ⟨hused.keyed, ?_, hread _, hused.salted⟩
    intro name
    rw [hused.entries name, hnone name, AList.lookup_empty]

omit [DecidableEq Text] in
theorem persistToDisk_of_directory {disk : Disk} (hdirectory : disk.directory = true)
    (entries : Entries Text) :
    persistToDisk utf8 disk entries =
      (.ok (), { disk with tokens := some (serializeEntries utf8 entries) }) := by
  rw [persistToDisk, if_pos hdirectory]

theorem Inv.directory_of_inUse (hinv : Inv utf8 sha masterPassword system file) {id : Id}
    (hid : system.inUse id = true) : system.disk.directory = true := by
  by_contra hdirectory
  rw [Bool.not_eq_true] at hdirectory
  rw [(hinv.directory hdirectory).2.2 id] at hid
  contradiction

variable [DecidableEq Id]

theorem Inv.rewrite (hinv : Inv utf8 sha masterPassword system file) {id : Id}
    (hid : system.inUse id = true) {entries : Entries Text} {stored : Text → Option Text}
    (hclean : Clean entries) (habsent : ∀ name, entries.lookup name = none → stored name = none)
    (hread : ReadAs utf8 stored entries (system.objects id).mEncryptionKey) :
    Inv utf8 sha masterPassword (system.wrote id stored
      (.ok (), { system.objects id with mEntries := entries },
        { system.disk with tokens := some (serializeEntries utf8 entries) })) entries := by
  have hused := hinv.used id hid
  have hstored : (system.wrote id stored (.ok (), { system.objects id with mEntries := entries },
      { system.disk with tokens := some (serializeEntries utf8 entries) })).stored = stored := by
    simp [wrote, hid]
  refine ⟨⟨hclean, .inr rfl⟩, ?_, ?_, hinv.one, ?_, ?_, ?_⟩
  · intro hdirectory
    have hnone := (hinv.directory hdirectory).2.2 id
    rw [hid] at hnone
    contradiction
  · intro other hother
    have hne : other ≠ id := by
      rintro rfl
      exact absurd (hid.symm.trans hother) (by decide)
    simp only [wrote, Function.update_of_ne hne]
    exact hinv.unused other hother
  · rw [hstored]
    exact habsent
  · intro salt hsalt
    rw [hstored, ← hused.salted salt hsalt]
    exact hread
  · intro other hother
    obtain rfl := hinv.one id other hid hother
    rw [hstored]
    simp only [wrote, Function.update_self]
    exact ⟨hused.keyed, fun _ => rfl, hread, hused.salted⟩

theorem Inv.untouched (hinv : Inv utf8 sha masterPassword system file) {id : Id}
    (hid : system.inUse id = false) {object : AesSecureStorage Text} (hobject : object.mEntries = ∅)
    (stored : Text → Option Text) (result : Result Unit) :
    Inv utf8 sha masterPassword (system.wrote id stored (result, object, system.disk)) file := by
  have hstored : (system.wrote id stored (result, object, system.disk)).stored = system.stored := by
    simp [wrote, hid]
  refine ⟨hinv.holds, hinv.directory, ?_, hinv.one, ?_, ?_, ?_⟩
  · intro other hother
    by_cases hother_id : other = id
    · simp only [wrote, hother_id, Function.update_self]
      exact hobject
    · simp only [wrote, Function.update_of_ne hother_id]
      exact hinv.unused other hother
  · rw [hstored]
    exact hinv.absent
  · rw [hstored]
    exact hinv.salted
  · intro other hother
    have hne : other ≠ id := by
      rintro rfl
      exact absurd (hid.symm.trans hother) (by decide)
    rw [hstored]
    simp only [wrote, Function.update_of_ne hne]
    exact hinv.used other hother

theorem store_of_keyed {object : AesSecureStorage Text} {disk : Disk}
    (hkeyed : object.mEncryptionKey ≠ []) (hdirectory : disk.directory = true) (name value : Text)
    (iv : RandomBytes) :
    object.store utf8 disk name value iv =
      (.ok (), { object with
          mEntries := object.mEntries.insert name
            (encrypt object.mEncryptionKey iv (utf8.encode value)) },
        { disk with tokens := some (serializeEntries utf8 (object.mEntries.insert name
          (encrypt object.mEncryptionKey iv (utf8.encode value)))) }) := by
  have hnot : object.mEncryptionKey.isEmpty = false := by
    rw [List.isEmpty_eq_false_iff]
    exact hkeyed
  rw [AesSecureStorage.store, hnot]
  simp only [persistToDisk_of_directory hdirectory]
  rfl

theorem Inv.store (hinv : Inv utf8 sha masterPassword system file) {id : Id} {name value : Text}
    {iv : RandomBytes}
    (hproper : system.inUse id = true ∨ (system.objects id).mEncryptionKey = []) :
    ∃ file', Inv utf8 sha masterPassword
      (system.step utf8 sha masterPassword (id, .store name value iv)) file' := by
  cases hid : system.inUse id with
  | true =>
    have hused := hinv.used id hid
    refine ⟨(system.objects id).mEntries.insert name
      (encrypt (system.objects id).mEncryptionKey iv (utf8.encode value)), ?_⟩
    change Inv utf8 sha masterPassword (system.wrote id _ _) _
    rw [store_of_keyed hused.keyed (hinv.directory_of_inUse hid)]
    apply hinv.rewrite hid
    · apply clean_insert
      · intro other stored hstored
        rw [hused.entries other] at hstored
        exact hinv.holds.clean other stored hstored
      · exact newline_notMem_encode _
    · intro other hother
      have hne : other ≠ name := by
        rintro rfl
        rw [AList.lookup_insert] at hother
        cases hother
      rw [AList.lookup_insert_ne hne, hused.entries other] at hother
      rw [Function.update_of_ne hne]
      exact hinv.absent other hother
    · intro other stored hstored
      by_cases hname : other = name
      · subst hname
        rw [AList.lookup_insert, Option.some.injEq] at hstored
        rw [Function.update_self, ← hstored, decrypt_encrypt, utf8.decode_encode]
      · rw [AList.lookup_insert_ne hname, hused.entries other] at hstored
        rw [Function.update_of_ne hname]
        exact hused.readAs other stored hstored
  | false =>
    have hempty := hproper.resolve_left (by rw [hid]; decide)
    have houtcome : (system.objects id).store utf8 system.disk name value iv =
        (.error ⟨.invalidState, "SecureStorage not initialized"⟩, system.objects id, system.disk) := by
      rw [AesSecureStorage.store, hempty]
      rfl
    refine ⟨file, ?_⟩
    change Inv utf8 sha masterPassword (system.wrote id _ _) _
    rw [houtcome]
    exact hinv.untouched hid (hinv.unused id hid) _ _

theorem Inv.persist_of_unused (hinv : Inv utf8 sha masterPassword system file) {id : Id}
    (hid : system.inUse id = false)
    (hproper : system.disk.directory = false ∨ NothingStored utf8 system.disk)
    {object : AesSecureStorage Text} (hobject : object.mEntries = ∅) (stored : Text → Option Text) :
    ∃ file', Inv utf8 sha masterPassword (system.wrote id stored
      ((persistToDisk utf8 system.disk object.mEntries).1, object,
        (persistToDisk utf8 system.disk object.mEntries).2)) file' := by
  cases hdirectory : system.disk.directory with
  | false =>
    have hpersist : persistToDisk utf8 system.disk object.mEntries =
        (.error ⟨.fileWriteError, "Failed to open secure storage file"⟩, system.disk) := by
      rw [persistToDisk, hdirectory]
      rfl
    rw [hpersist]
    exact ⟨file, hinv.untouched hid hobject stored _⟩
  | true =>
    have hnothing := hproper.resolve_left (by rw [hdirectory]; decide)
    rw [persistToDisk_of_directory hdirectory, hobject]
    refine ⟨∅, ?_⟩
    exact (hinv.emptied hnothing).untouched hid hobject stored (.ok ())

theorem Inv.remove (hinv : Inv utf8 sha masterPassword system file) {id : Id} {name : Text}
    (hproper : system.inUse id = true ∨ system.disk.directory = false ∨
      NothingStored utf8 system.disk) :
    ∃ file', Inv utf8 sha masterPassword
      (system.step utf8 sha masterPassword (id, .remove name)) file' := by
  change ∃ file', Inv utf8 sha masterPassword (system.wrote id _ _) file'
  cases hid : system.inUse id with
  | true =>
    have hused := hinv.used id hid
    refine ⟨(system.objects id).mEntries.erase name, ?_⟩
    rw [AesSecureStorage.remove]
    simp only [persistToDisk_of_directory (hinv.directory_of_inUse hid)]
    apply hinv.rewrite hid
    · apply clean_erase
      intro other stored hstored
      rw [hused.entries other] at hstored
      exact hinv.holds.clean other stored hstored
    · intro other hother
      by_cases hname : other = name
      · rw [hname, Function.update_self]
      · rw [AList.lookup_erase_ne hname, hused.entries other] at hother
        rw [Function.update_of_ne hname]
        exact hinv.absent other hother
    · intro other stored hstored
      have hne : other ≠ name := by
        rintro rfl
        rw [AList.lookup_erase] at hstored
        cases hstored
      rw [AList.lookup_erase_ne hne, hused.entries other] at hstored
      rw [Function.update_of_ne hne]
      exact hused.readAs other stored hstored
  | false =>
    apply hinv.persist_of_unused hid (hproper.resolve_left (by rw [hid]; decide))
    rw [hinv.unused id hid]
    rfl

theorem Inv.clear (hinv : Inv utf8 sha masterPassword system file) {id : Id}
    (hproper : system.inUse id = true ∨ system.disk.directory = false ∨
      NothingStored utf8 system.disk) :
    ∃ file', Inv utf8 sha masterPassword (system.step utf8 sha masterPassword (id, .clear)) file' := by
  change ∃ file', Inv utf8 sha masterPassword (system.wrote id _ _) file'
  cases hid : system.inUse id with
  | true =>
    refine ⟨∅, ?_⟩
    rw [AesSecureStorage.clear]
    simp only [persistToDisk_of_directory (hinv.directory_of_inUse hid)]
    apply hinv.rewrite hid clean_empty (fun _ _ => rfl)
    exact readAs_of_lookup_eq_none utf8 (fun name => AList.lookup_empty name) _
  | false => exact hinv.persist_of_unused hid (hproper.resolve_left (by rw [hid]; decide)) rfl _

theorem Inv.released (hinv : Inv utf8 sha masterPassword system file) (id : Id)
    {object : AesSecureStorage Text} (hobject : object.mEntries = ∅) :
    Inv utf8 sha masterPassword { system with
      objects := Function.update system.objects id object
      inUse := Function.update system.inUse id false } file := by
  have hother : ∀ other, Function.update system.inUse id false other = true →
      other ≠ id ∧ system.inUse other = true := by
    intro other hused
    have hne : other ≠ id := by
      rintro rfl
      rw [Function.update_self] at hused
      contradiction
    rw [Function.update_of_ne hne] at hused
    exact ⟨hne, hused⟩
  refine ⟨hinv.holds, ?_, ?_, ?_, hinv.absent, hinv.salted, ?_⟩
  · intro hdirectory
    obtain ⟨hsalt, hfile, hunused⟩ := hinv.directory hdirectory
    refine ⟨hsalt, hfile, fun other => ?_⟩
    by_contra hused
    rw [Bool.not_eq_false] at hused
    exact absurd ((hunused other).symm.trans (hother other hused).2) (by decide)
  · intro other hunused
    by_cases hid : other = id
    · simp only [hid, Function.update_self]
      exact hobject
    · simp only [Function.update_of_ne hid] at hunused ⊢
      exact hinv.unused other hunused
  · intro first second hfirst hsecond
    exact hinv.one first second (hother first hfirst).2 (hother second hsecond).2
  · intro other hused
    simp only [Function.update_of_ne (hother other hused).1]
    exact hinv.used other (hother other hused).2

theorem deriveKey_spec (sha : Sha256) (masterPassword : Bytes) (disk : Disk) (random : RandomBytes) :
    (AesSecureStorage.deriveKey sha masterPassword disk random).1 ≠ [] ∧
      (AesSecureStorage.deriveKey sha masterPassword disk random).2.directory = disk.directory ∧
      (AesSecureStorage.deriveKey sha masterPassword disk random).2.tokens = disk.tokens ∧
      (∀ salt, (AesSecureStorage.deriveKey sha masterPassword disk random).2.salt = some salt →
        (AesSecureStorage.deriveKey sha masterPassword disk random).1 =
          AesSecureStorage.keyOf sha masterPassword salt) ∧
      (∀ salt, disk.salt = some salt →
        (AesSecureStorage.deriveKey sha masterPassword disk random).1 =
          AesSecureStorage.keyOf sha masterPassword salt) ∧
      (disk.directory = false →
        (AesSecureStorage.deriveKey sha masterPassword disk random).2 = disk) := by
  unfold AesSecureStorage.deriveKey
  cases hsalt : disk.salt with
  | some salt =>
    dsimp only
    refine ⟨keyOf_ne_nil sha masterPassword salt, rfl, rfl, ?_, ?_, fun _ => rfl⟩
    · intro other hother
      rw [hsalt, Option.some.injEq] at hother
      rw [hother]
    · intro other hother
      rw [Option.some.injEq] at hother
      rw [hother]
  | none =>
    dsimp only
    refine ⟨keyOf_ne_nil sha masterPassword random.val, ?_, ?_, ?_, ?_, ?_⟩
    · split <;> rfl
    · split <;> rfl
    · intro salt hfound
      split at hfound
      · rw [Option.some.injEq] at hfound
        rw [← hfound]
      · rw [hsalt] at hfound
        cases hfound
    · intro salt hfound
      cases hfound
    · intro hdirectory
      rw [if_neg (by rw [hdirectory]; decide)]

theorem Inv.opened (hinv : Inv utf8 sha masterPassword system file) {id : Id}
    (hothers : ∀ other, other ≠ id → system.inUse other = false) {disk : Disk} {key : Bytes}
    (htokens : disk.tokens = system.disk.tokens) (hdirectory : disk.directory = true) (hkey : key ≠ [])
    (hsalt : ∀ salt, disk.salt = some salt → key = AesSecureStorage.keyOf sha masterPassword salt)
    (hread : ReadAs utf8 system.stored file key) :
    Inv utf8 sha masterPassword { system with
      disk := disk
      objects := Function.update system.objects id
        { mEncryptionKey := key, mEntries := loadFromDisk utf8 disk (system.objects id).mEntries }
      inUse := Function.update system.inUse id true } file := by
  have hholds : Holds utf8 disk file := ⟨hinv.holds.clean, by rw [htokens]; exact hinv.holds.tokens⟩
  have honly : ∀ other, Function.update system.inUse id true other = true → other = id := by
    intro other hused
    by_contra hne
    rw [Function.update_of_ne hne, hothers other hne] at hused
    contradiction
  refine ⟨hholds, ?_, ?_, ?_, hinv.absent, ?_, ?_⟩
  · intro hmissing
    rw [hdirectory] at hmissing
    contradiction
  · intro other hunused
    have hne : other ≠ id := by
      rintro rfl
      change Function.update system.inUse other true other = false at hunused
      rw [Function.update_self] at hunused
      contradiction
    simp only [Function.update_of_ne hne] at hunused ⊢
    exact hinv.unused other hunused
  · intro first second hfirst hsecond
    rw [honly first hfirst, honly second hsecond]
  · intro salt hfound
    rw [← hsalt salt hfound]
    exact hread
  · intro other hused
    obtain rfl := honly other hused
    simp only [Function.update_self]
    refine ⟨hkey, ?_, hread, hsalt⟩
    intro name
    rw [hholds.lookup_load]
    -- in memory there was nothing, or what is in the file
    cases hother : system.inUse other with
    | false => rw [hinv.unused other hother, AList.lookup_empty, Option.or_none]
    | true =>
      rw [(hinv.used other hother).entries name]
      cases file.lookup name <;> rfl

theorem Inv.init (hinv : Inv utf8 sha masterPassword system file) {id : Id} {random : RandomBytes}
    {mkpath : Bool} (hothers : ∀ other, other ≠ id → system.inUse other = false)
    (hsalt : system.disk.salt = none → NothingStored utf8 system.disk) :
    Inv utf8 sha masterPassword
      (system.step utf8 sha masterPassword (id, .init random mkpath)) file := by
  obtain ⟨hkey, hdirectory, htokens, hsalted, hfound, hunchanged⟩ :=
    deriveKey_spec sha masterPassword system.disk random
  have hread : ReadAs utf8 system.stored file
      (AesSecureStorage.deriveKey sha masterPassword system.disk random).1 := by
    cases hexists : system.disk.salt with
    | some salt =>
      rw [hfound salt hexists]
      exact hinv.salted salt hexists
    | none => exact readAs_of_lookup_eq_none utf8 (hinv.lookup_eq_none (hsalt hexists)) _
  simp only [System.step, AesSecureStorage.init]
  set derived := AesSecureStorage.deriveKey sha masterPassword system.disk random
  by_cases hcreated : derived.2.directory = true ∨ mkpath = true
  · rw [if_pos hcreated]
    exact hinv.opened hothers htokens rfl hkey hsalted hread
  · rw [if_neg hcreated]
    have hmissing : system.disk.directory = false := by
      rw [← hdirectory]
      exact Bool.not_eq_true _ ▸ fun hd => hcreated (.inl hd)
    have hid := (hinv.directory hmissing).2.2 id
    rw [hunchanged hmissing]
    exact hinv.released id (hinv.unused id hid)

theorem Inv.step (hinv : Inv utf8 sha masterPassword system file) {call : Id × Operation Text}
    (hproper : Proper utf8 system call) :
    ∃ file', Inv utf8 sha masterPassword (system.step utf8 sha masterPassword call) file' := by
  obtain ⟨id, operation⟩ := call
  cases operation with
  | init random mkpath => exact ⟨file, hinv.init hproper.1 hproper.2⟩
  | store name value iv => exact hinv.store hproper
  | retrieve name => exact ⟨file, hinv⟩
  | remove name => exact hinv.remove hproper
  | clear => exact hinv.clear hproper
  | shutdown => exact ⟨file, hinv.released id rfl⟩

/-- Along every run of proper calls an object in use retrieves what was stored last, in every state. -/
theorem durable_of_proper {calls : List (Id × Operation Text)}
    (hproper : Along (System.step utf8 sha masterPassword) (Proper utf8) {} calls) (n : Nat) :
    Durable utf8 (run (System.step utf8 sha masterPassword) {} (calls.take n)) := by
  have hinv : ∃ file, Inv utf8 sha masterPassword
      (run (System.step utf8 sha masterPassword) {} (calls.take n)) file := by
    apply hproper.always (P := fun system => ∃ file, Inv utf8 sha masterPassword system file)
      ⟨∅, inv_start⟩
    rintro system call ⟨file, hinv⟩ hcall
    exact hinv.step hcall
  obtain ⟨file, hinv⟩ := hinv
  exact hinv.durable

/-! ### Two objects -/

theorem step_store_salt (system : System Text Id) (id : Id) (name value : Text) (iv : RandomBytes) :
    (system.step utf8 sha masterPassword (id, .store name value iv)).disk.salt = system.disk.salt := by
  change ((system.objects id).store utf8 system.disk name value iv).2.2.salt = _
  rw [AesSecureStorage.store]
  split
  · rfl
  · simp only [persistToDisk]
    split <;> rfl

variable (utf8 sha masterPassword) in
theorem step_init_spec (system : System Text Id) (id : Id) (random : RandomBytes) :
    let opened := system.step utf8 sha masterPassword (id, .init random true)
    opened.disk.directory = true ∧ opened.inUse id = true ∧
      (opened.objects id).mEncryptionKey ≠ [] ∧
      ∀ name, (opened.objects id).mEntries.lookup name =
        (loadFromDisk utf8 system.disk (system.objects id).mEntries).lookup name := by
  intro opened
  obtain ⟨hkey, -, htokens, -⟩ := deriveKey_spec sha masterPassword system.disk random
  set derived := AesSecureStorage.deriveKey sha masterPassword system.disk random with hderived
  have hopened : opened = { system with
      disk := { derived.2 with directory := true }
      objects := Function.update system.objects id
        { mEncryptionKey := derived.1
          mEntries := loadFromDisk utf8 { derived.2 with directory := true }
            (system.objects id).mEntries }
      inUse := Function.update system.inUse id true } := by
    simp only [opened, System.step, AesSecureStorage.init, ← hderived, or_true, if_true]
    rfl
  rw [hopened]
  simp only [Function.update_self, loadFromDisk, htokens]
  exact ⟨trivial, trivial, hkey, fun _ => trivial⟩

variable (utf8 sha masterPassword) in
theorem step_store_of_used {id : Id} (hdirectory : system.disk.directory = true)
    (hused : system.inUse id = true) (hkeyed : (system.objects id).mEncryptionKey ≠ [])
    (name value : Text) (iv : RandomBytes) :
    ∃ object tokens, system.step utf8 sha masterPassword (id, .store name value iv) = { system with
      disk := { system.disk with tokens := some tokens }
      objects := Function.update system.objects id object
      stored := Function.update system.stored name (some value) } := by
  change ∃ object tokens, system.wrote id _ _ = _
  rw [store_of_keyed hkeyed hdirectory, System.wrote, if_pos ⟨hused, rfl⟩]
  exact ⟨_, _, rfl⟩

variable (utf8 sha masterPassword) in
theorem step_remove_of_unused {id : Id} (hdirectory : system.disk.directory = true)
    (hunused : system.inUse id = false) (hempty : (system.objects id).mEntries = ∅) (name : Text) :
    system.step utf8 sha masterPassword (id, .remove name) = { system with
      disk := { system.disk with tokens := some [] }
      objects := Function.update system.objects id { system.objects id with mEntries := ∅ } } := by
  have hremove : (system.objects id).remove utf8 system.disk name =
      (.ok (), { system.objects id with mEntries := ∅ }, { system.disk with tokens := some [] }) := by
    rw [AesSecureStorage.remove, hempty]
    simp only [persistToDisk_of_directory hdirectory]
    rfl
  change system.wrote id _ _ = _
  rw [hremove, System.wrote, hunused, if_neg (fun hboth => absurd hboth.1 (by decide))]

/-- An object that is not in use removes something, and the next `init` finds nothing. -/
theorem not_durable_of_remove {first second : Id} (hne : second ≠ first)
    (hdirectory : system.disk.directory = true) (hused : system.inUse first = true)
    (hkeyed : (system.objects first).mEncryptionKey ≠ []) (hunused : system.inUse second = false)
    (hempty : (system.objects second).mEntries = ∅) (name value other : Text) (iv random : RandomBytes) :
    ¬ Durable utf8 (run (System.step utf8 sha masterPassword) system
      [(first, .store name value iv), (first, .shutdown), (second, .remove other),
        (second, .init random true)]) := by
  obtain ⟨object, tokens, hstore⟩ :=
    step_store_of_used utf8 sha masterPassword hdirectory hused hkeyed name value iv
  intro hdurable
  simp only [run, List.foldl_cons, List.foldl_nil, hstore] at hdurable
  set closed := System.step utf8 sha masterPassword { system with
      disk := { system.disk with tokens := some tokens }
      objects := Function.update system.objects first object
      stored := Function.update system.stored name (some value) } (first, .shutdown) with hclosed
  have hobject : closed.objects second = system.objects second := by
    rw [hclosed]
    exact (Function.update_of_ne hne _ _).trans (Function.update_of_ne hne _ _)
  have hremove := @step_remove_of_unused Text Id _ utf8 sha masterPassword closed _ second hdirectory
    ((Function.update_of_ne hne _ _).trans hunused) (by rw [hobject]; exact hempty) other
  obtain ⟨-, hinUse, hkey, hentries⟩ := step_init_spec utf8 sha masterPassword
    (closed.step utf8 sha masterPassword (second, .remove other)) second random
  have hretrieve := hdurable second hinUse name
  have hstored : ((closed.step utf8 sha masterPassword (second, .remove other)).step utf8 sha
      masterPassword (second, .init random true)).stored name = some value := by
    rw [hremove]
    exact Function.update_self name (some value) system.stored
  have hnone := hentries name
  simp only [hremove, Function.update_self] at hnone
  have hlost : (loadFromDisk utf8 { closed.disk with tokens := some [] } ∅).lookup name = none := rfl
  rw [hlost] at hnone
  rw [hstored, AesSecureStorage.retrieve, if_neg (by rwa [List.isEmpty_iff])] at hretrieve
  simp only [hremove] at hretrieve
  rw [hnone] at hretrieve
  cases hretrieve

section Restart

def stringUtf8 : Utf8 String where
  encode text := text.toUTF8.data.toList
  decode bytes := (String.fromUTF8? ⟨bytes.toArray⟩).getD ""
  decode_encode text := by
    have hvalid : (text.toUTF8).IsValidUTF8 := text.isValidUTF8
    change (String.fromUTF8? ⟨text.toUTF8.data.toList.toArray⟩).getD "" = text
    rw [Array.toArray_toList, String.fromUTF8?, dif_pos hvalid]
    rfl

def sevens : RandomBytes := ⟨List.replicate 16 7, List.length_replicate⟩

/-- The first object stores a value under a salt that was saved, and the second one reads it. -/
def restartRun : List (Bool × Operation String) :=
  [(false, .init sevens true), (false, .init sevens true), (false, .store "token" "secret" sevens),
    (false, .shutdown), (true, .init sevens true)]

theorem nothingStored_of_no_file {disk : Disk} (hnone : disk.tokens = none) :
    NothingStored stringUtf8 disk := by
  intro key
  rw [loadFromDisk, hnone]
  rfl

theorem proper_restartRun :
    Along (System.step stringUtf8 sumSha [1]) (Proper stringUtf8) {} restartRun := by
  refine ⟨⟨fun _ _ => rfl, fun _ => nothingStored_of_no_file rfl⟩,
    ⟨?_, fun _ => nothingStored_of_no_file rfl⟩, .inl rfl, trivial, ⟨?_, ?_⟩, trivial⟩
  · intro other hother
    cases other with
    | false => exact absurd rfl hother
    | true => rfl
  · intro other hother
    cases other with
    | false => rfl
    | true => exact absurd rfl hother
  · intro hsalt
    rw [show ∀ (system : System String Bool),
      (system.step stringUtf8 sumSha [1] (false, .shutdown)).disk = system.disk from fun _ => rfl,
      step_store_salt] at hsalt
    cases hsalt

theorem durable_restartRun :
    Durable stringUtf8 (run (System.step stringUtf8 sumSha [1]) {} restartRun) :=
  durable_of_proper proper_restartRun 5

theorem not_durable_removed_other :
    ¬ Durable stringUtf8 (run (System.step stringUtf8 sumSha [1]) ({} : System String Bool)
      [(false, .init sevens true), (false, .store "token" "secret" sevens), (false, .shutdown),
        (true, .remove "other"), (true, .init sevens true)]) := by
  obtain ⟨hdirectory, hused, hkeyed, -⟩ :=
    step_init_spec stringUtf8 sumSha [1] ({} : System String Bool) false sevens
  have hlost := @not_durable_of_remove String Bool _ stringUtf8 sumSha [1] _ _ false true (by decide)
    hdirectory hused hkeyed rfl rfl "token" "secret" "other" sevens sevens
  rw [run] at hlost ⊢
  rw [List.foldl_cons]
  exact hlost

end Restart

end System

end SoulCoreKit.Auth
