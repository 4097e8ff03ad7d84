import SoulCoreKit.Core.Result
import SoulCoreKit.Lib.Base64
import Mathlib.Data.List.AList

/-!
# The secure storage

`auth::AesSecureStorage` over the two files of its directory. A file can be opened for writing exactly
when the directory exists. `mkpath` may fail where it has something to do, and the random bytes are
arguments of the calls that draw them. The encrypted texts are base64, so they are lists of characters,
as is the data file. The map of entries is an association list with distinct keys; its order is not the
one of the hash table, on which no result depends.
-/

namespace SoulCoreKit.Auth

abbrev Bytes := List UInt8

/-- UTF-8: the bytes of a text give the text back. -/
structure Utf8 (Text : Type) where
  encode : Text → Bytes
  decode : Bytes → Text
  decode_encode : ∀ text, decode (encode text) = text

/-- SHA-256 of `QCryptographicHash`. -/
structure Sha256 where
  hash : Bytes → Bytes
  length_hash : ∀ data, (hash data).length = 32

/-- What `generateRandomBytes(16)` returns. -/
abbrev RandomBytes := { bytes : Bytes // bytes.length = 16 }

/-! ### The key -/

section Key

variable (sha : Sha256)

def xorWith (byte : UInt8) (bytes : Bytes) : Bytes := bytes.map (· ^^^ byte)

def hmacSha256 (key data : Bytes) : Bytes :=
  let keyBlock := if key.length > 64 then sha.hash key else key
  let keyBlock := keyBlock ++ List.replicate (64 - keyBlock.length) 0
  sha.hash (xorWith 0x5C keyBlock ++ sha.hash (xorWith 0x36 keyBlock ++ data))

/-- The rounds of one block: `u` is hashed again and again, `t` collects the results. -/
def pbkdf2Rounds (password : Bytes) : Nat → Bytes → Bytes → Bytes
  | 0, _, t => t
  | rounds + 1, u, t =>
      let u := hmacSha256 sha password u
      pbkdf2Rounds password rounds u (t.zipWith (· ^^^ ·) u)

def blockBytes (blockIndex : Nat) : Bytes :=
  [UInt8.ofNat (blockIndex / 2 ^ 24), UInt8.ofNat (blockIndex / 2 ^ 16), UInt8.ofNat (blockIndex / 2 ^ 8),
    UInt8.ofNat blockIndex]

/-- `while (offset < keyLength)`; `derived` is what has been copied. Every block brings a byte at least,
so as many blocks as there are bytes to derive are enough. -/
def pbkdf2Blocks (password salt : Bytes) (iterations keyLength : Nat) : Nat → Nat → Bytes → Bytes
  | 0, _, derived => derived
  | fuel + 1, blockIndex, derived =>
      if derived.length < keyLength then
        let u := hmacSha256 sha password (salt ++ blockBytes blockIndex)
        let t := pbkdf2Rounds sha password (iterations - 1) u u
        pbkdf2Blocks password salt iterations keyLength fuel (blockIndex + 1)
          (derived ++ t.take (keyLength - derived.length))
      else
        derived

def pbkdf2Derive (password salt : Bytes) (iterations keyLength : Nat) : Bytes :=
  pbkdf2Blocks sha password salt iterations keyLength keyLength 1 []

end Key

/-! ### Encryption -/

/-- The byte at a position of a byte array. -/
def byteAt (bytes : Bytes) (position : Nat) : UInt8 := bytes.getD position 0

def xorEncrypt (data key iv : Bytes) : Bytes :=
  data.mapIdx fun i byte => byte ^^^ byteAt key (i % key.length) ^^^ byteAt iv (i % iv.length)

def xorDecrypt (data key iv : Bytes) : Bytes := xorEncrypt data key iv

def encrypt (key : Bytes) (iv : RandomBytes) (plaintext : Bytes) : List Char :=
  Base64.encode (iv.val ++ xorEncrypt plaintext key iv.val)

def decrypt (key : Bytes) (encrypted : List Char) : Bytes :=
  let raw := Base64.decode encrypted
  if raw.length < 16 then [] else xorDecrypt (raw.drop 16) key (raw.take 16)

/-! ### The disk -/

/-- The directory of the storage, `.salt` and `tokens.dat` in it. -/
structure Disk where
  directory : Bool := false
  salt : Option Bytes := none
  tokens : Option (List Char) := none
  deriving DecidableEq

/-- `split('\n')`. -/
def splitLines : List Char → List (List Char)
  | [] => [[]]
  | c :: rest =>
      if c = '\n' then [] :: splitLines rest
      else
        match splitLines rest with
        | [] => [[c]]
        | line :: lines => (c :: line) :: lines

section Storage

variable {Text : Type} [DecidableEq Text] (utf8 : Utf8 Text)

abbrev Entries (Text : Type) := AList fun _ : Text => List Char

/-- One line of the data file. -/
def entryLine (entry : Sigma fun _ : Text => List Char) : List Char :=
  Base64.encode (utf8.encode entry.1) ++ ':' :: entry.2 ++ ['\n']

def serializeEntries (entries : Entries Text) : List Char := entries.entries.flatMap (entryLine utf8)

/-- The loop of `loadFromDisk`, for one line. -/
def loadLine (entries : Entries Text) (line : List Char) : Entries Text :=
  if line.isEmpty then entries
  else
    match line.idxOf? ':' with
    | none => entries
    | some colonPos =>
        entries.insert (utf8.decode (Base64.decode (line.take colonPos))) (line.drop (colonPos + 1))

def loadFromDisk (disk : Disk) (entries : Entries Text) : Entries Text :=
  match disk.tokens with
  | none => entries
  | some data => (splitLines data).foldl (loadLine utf8) entries

def persistToDisk (disk : Disk) (entries : Entries Text) : Result Unit × Disk :=
  if disk.directory then
    (.ok (), { disk with tokens := some (serializeEntries utf8 entries) })
  else
    (.error ⟨.fileWriteError, "Failed to open secure storage file"⟩, disk)

/-! ### An object -/

structure AesSecureStorage (Text : Type) where
  mEncryptionKey : Bytes := []
  mEntries : Entries Text := ∅

namespace AesSecureStorage

variable (sha : Sha256) (masterPassword : Bytes)

def keyOf (salt : Bytes) : Bytes := pbkdf2Derive sha masterPassword salt 100000 32

/-- The key, and the disk afterwards. -/
def deriveKey (disk : Disk) (random : RandomBytes) : Bytes × Disk :=
  match disk.salt with
  | some salt => (keyOf sha masterPassword salt, disk)
  | none =>
      (keyOf sha masterPassword random.val,
        if disk.directory then { disk with salt := some random.val } else disk)

/-- `mkpath` is whether a missing directory can be created. -/
def init (object : AesSecureStorage Text) (disk : Disk) (random : RandomBytes) (mkpath : Bool) :
    Result Unit × AesSecureStorage Text × Disk :=
  let (key, disk) := deriveKey sha masterPassword disk random
  let object := { object with mEncryptionKey := key }
  if disk.directory ∨ mkpath then
    let disk := { disk with directory := true }
    (.ok (), { object with mEntries := loadFromDisk utf8 disk object.mEntries }, disk)
  else
    (.error ⟨.fileError, "Failed to create secure storage directory"⟩, object, disk)

def store (object : AesSecureStorage Text) (disk : Disk) (key value : Text) (iv : RandomBytes) :
    Result Unit × AesSecureStorage Text × Disk :=
  if object.mEncryptionKey.isEmpty then
    (.error ⟨.invalidState, "SecureStorage not initialized"⟩, object, disk)
  else
    let encrypted := encrypt object.mEncryptionKey iv (utf8.encode value)
    let object := { object with mEntries := object.mEntries.insert key encrypted }
    let (result, disk) := persistToDisk utf8 disk object.mEntries
    (result, object, disk)

def retrieve (object : AesSecureStorage Text) (key : Text) : Result Text :=
  if object.mEncryptionKey.isEmpty then
    .error ⟨.invalidState, "SecureStorage not initialized"⟩
  else
    match object.mEntries.lookup key with
    | none => .error ⟨.notFound, "Key not found in secure storage"⟩
    | some encrypted => .ok (utf8.decode (decrypt object.mEncryptionKey encrypted))

def remove (object : AesSecureStorage Text) (disk : Disk) (key : Text) :
    Result Unit × AesSecureStorage Text × Disk :=
  let object := { object with mEntries := object.mEntries.erase key }
  let (result, disk) := persistToDisk utf8 disk object.mEntries
  (result, object, disk)

def clear (object : AesSecureStorage Text) (disk : Disk) :
    Result Unit × AesSecureStorage Text × Disk :=
  let object := { object with mEntries := ∅ }
  let (result, disk) := persistToDisk utf8 disk object.mEntries
  (result, object, disk)

def shutdown (object : AesSecureStorage Text) : AesSecureStorage Text where
  mEncryptionKey := object.mEncryptionKey.map fun _ => 0
  mEntries := ∅

end AesSecureStorage

/-! ### Several objects -/

inductive Operation (Text : Type) where
  | init (random : RandomBytes) (mkpath : Bool)
  | store (key value : Text) (iv : RandomBytes)
  | retrieve (key : Text)
  | remove (key : Text)
  | clear
  | shutdown

/-- The objects over one disk. `inUse` and `stored` are not the program's: the objects whose last `init`
succeeded and that were not shut down since, and what the calls on them stored last. -/
structure System (Text Id : Type) where
  disk : Disk := {}
  objects : Id → AesSecureStorage Text := fun _ => {}
  inUse : Id → Bool := fun _ => false
  stored : Text → Option Text := fun _ => none

namespace System

variable {Id : Type} [DecidableEq Id] (sha : Sha256) (masterPassword : Bytes)

/-- A call that rewrites the file, with its effect on what is stored. -/
def wrote (system : System Text Id) (id : Id) (stored : Text → Option Text)
    (outcome : Result Unit × AesSecureStorage Text × Disk) : System Text Id where
  disk := outcome.2.2
  objects := Function.update system.objects id outcome.2.1
  inUse := system.inUse
  stored := if system.inUse id ∧ outcome.1 = .ok () then stored else system.stored

/-- One call on one object. -/
def step (system : System Text Id) (call : Id × Operation Text) : System Text Id :=
  let object := system.objects call.1
  match call.2 with
  | .init random mkpath =>
      let outcome := object.init utf8 sha masterPassword system.disk random mkpath
      { system with
        disk := outcome.2.2
        objects := Function.update system.objects call.1 outcome.2.1
        inUse := Function.update system.inUse call.1 (outcome.1 = .ok ()) }
  | .store key value iv =>
      system.wrote call.1 (Function.update system.stored key (some value))
        (object.store utf8 system.disk key value iv)
  | .retrieve _ => system
  | .remove key =>
      system.wrote call.1 (Function.update system.stored key none) (object.remove utf8 system.disk key)
  | .clear => system.wrote call.1 (fun _ => none) (object.clear utf8 system.disk)
  | .shutdown =>
      { system with
        objects := Function.update system.objects call.1 object.shutdown
        inUse := Function.update system.inUse call.1 false }

end System

end Storage

end SoulCoreKit.Auth
