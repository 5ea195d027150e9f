import TrenchDb.Identity.Files

/-!
# The identity vault

`trench/src/identity/vault.rs`, `certs.rs`, `peer.rs` and `node_identity.rs`: what one start of a node
does until it has its identity.
-/

open TrenchDb.Lib TrenchDb.Lib.BigEndian TrenchDb.Lib.Stopping TrenchDb.Rpc TrenchDb.Storage

namespace TrenchDb.Identity

/-! ## The configuration -/

/-- `char::is_whitespace`. -/
def isWhitespace (c : Char) : Bool :=
  c.toNat ∈ [0x09, 0x0A, 0x0B, 0x0C, 0x0D, 0x20, 0x85, 0xA0, 0x1680, 0x2000, 0x2001, 0x2002, 0x2003, 0x2004, 0x2005,
    0x2006, 0x2007, 0x2008, 0x2009, 0x200A, 0x2028, 0x2029, 0x202F, 0x205F, 0x3000]

def trimMatches (p : Char → Bool) (text : List Char) : List Char := (text.dropWhile p).rdropWhile p

def trim : List Char → List Char := trimMatches isWhitespace

/-- Two sides of the first such character. -/
def splitOnce (c : Char) (text : List Char) : Option (List Char × List Char) :=
  match text.dropWhile (· ≠ c) with
  | [] => none
  | _ :: value => some (text.takeWhile (· ≠ c), value)

structure TrenchConfig where
  nodeAddress : String
  region : String
  identityVaultPath : String
  deriving DecidableEq, Repr

/-- One line of the file. -/
def TrenchConfig.readLine (config : TrenchConfig) (line : List Char) : Except String TrenchConfig :=
  let line := trim line
  if line = [] ∨ line.head? = some '#' then .ok config
  else match splitOnce '=' line with
    | none => .error ("Invalid config line: " ++ String.ofList line)
    | some (key, value) =>
      -- The double quotes, then the single ones.
      let value := String.ofList
        (trimMatches (· = Char.ofNat 0x27) (trimMatches (· = Char.ofNat 0x22) (trim value)))
      match String.ofList (trim key) with
      | "NodeAddress" => .ok { config with nodeAddress := value }
      | "Region" => .ok { config with region := value }
      | "IdentityVaultPath" => .ok { config with identityVaultPath := value }
      | _ => .ok config

/-- `content` is what reading `config.trench` gives. The trim of a line takes the `\r` of its end, too. -/
def loadConfig (content : Except String String) : Except String TrenchConfig := do
  let content ← content
  if trim content.toList = [] then .error "Config file config.trench is empty"
  else
    let config ← (content.toList.splitOn '\n').foldlM TrenchConfig.readLine
      { nodeAddress := "", region := "", identityVaultPath := "identity" }
    if config.nodeAddress = "" then .error "NodeAddress is required in config.trench"
    else .ok config

/-! ## A start -/

/-- What the third-party crates give: `byteser`, `rustls_pemfile` (the first certificate of a file) and `sha2`. -/
structure Crates where
  codec : Codec NodeIdentity
  certs : List UInt8 → Option (Except String (List UInt8))
  digest : List UInt8 → List UInt8

/-- A certificate and its key, as PEM texts. -/
structure KeyPair where
  cert : List UInt8
  key : List UInt8
  deriving DecidableEq, Repr

/-- One call of `NodeIdentity::new`: its argument, its configuration file, and what it draws at random. -/
structure Start (D : Type) extends Process D where
  bootstraped : Bool
  config : Except String String
  id : Uuid
  pair : Except String KeyPair

def IDENTITY_FILE : String := "identity.bin"
def NODE_CERT_FILE : String := "node-cert.pem"
def NODE_KEY_FILE : String := "node-key.pem"

/-! ## The vault -/

structure IdentityVault where
  root : String
  deriving DecidableEq, Repr

section Vault

variable {D : Type} (v : IdentityVault) (p : Process D)

def IdentityVault.identityPath : Path D := (p.resolve v.root, IDENTITY_FILE)
def IdentityVault.nodeCertPath : Path D := (p.resolve v.root, NODE_CERT_FILE)
def IdentityVault.nodeKeyPath : Path D := (p.resolve v.root, NODE_KEY_FILE)

/-- `identity_path().display()`. -/
def IdentityVault.identityPathText : String :=
  if v.root = "" ∨ v.root.toList.getLast? = some '/' then v.root ++ IDENTITY_FILE else v.root ++ "/" ++ IDENTITY_FILE

def IdentityVault.loadIdentity (c : Crates) : Proc D NodeIdentity := do
  let bytes ← mapError (fun e => "failed to open identity vault at " ++ v.identityPathText ++ ": " ++ e)
    (readFile p .openIdentity (v.identityPath p))
  useFile p .readIdentity
  of ((c.codec.byteDeserialize bytes).mapError fun e => "failed to deserialize identity: " ++ e)

def IdentityVault.exists (disk : Disk D) : Bool :=
  (disk (v.identityPath p)).isSome && (disk (v.nodeCertPath p)).isSome && (disk (v.nodeKeyPath p)).isSome

theorem IdentityVault.cert_ne_identity : v.nodeCertPath p ≠ v.identityPath p := by
  simp [nodeCertPath, identityPath, NODE_CERT_FILE, IDENTITY_FILE]

theorem IdentityVault.key_ne_identity : v.nodeKeyPath p ≠ v.identityPath p := by
  simp [nodeKeyPath, identityPath, NODE_KEY_FILE, IDENTITY_FILE]

theorem IdentityVault.key_ne_cert : v.nodeKeyPath p ≠ v.nodeCertPath p := by
  simp [nodeKeyPath, nodeCertPath, NODE_KEY_FILE, NODE_CERT_FILE]

variable [DecidableEq D]

def IdentityVault.save (c : Crates) (identity : NodeIdentity) : Proc D Unit := do
  useFile p .ensureRoot
  let bytes ← allocate (c.codec.byteSerialize identity)
  writeFile p .writeIdentity (v.identityPath p) bytes
  useFile p .syncIdentity
  copyFile p .copyCert (p.cwd, NODE_CERT_FILE) (v.nodeCertPath p)
  copyFile p .copyKey (p.cwd, NODE_KEY_FILE) (v.nodeKeyPath p)

def IdentityVault.copyCertsToWorkingDir : Proc D Unit := do
  copyFile p .copyCertBack (v.nodeCertPath p) (p.cwd, NODE_CERT_FILE)
  copyFile p .copyKeyBack (v.nodeKeyPath p) (p.cwd, NODE_KEY_FILE)

end Vault

/-! ## Certificates -/

variable {D : Type} [DecidableEq D]

/-- Both go to the working directory. -/
def createCertificates (start : Start D) : Proc D Unit := do
  let pair ← of start.pair
  writeFile start.toProcess .writeCert (start.cwd, NODE_CERT_FILE) pair.cert
  writeFile start.toProcess .writeKey (start.cwd, NODE_KEY_FILE) pair.key

def hexDigits (byte : UInt8) : List Char := [Nat.digitChar (byte.toNat / 16), Nat.digitChar (byte.toNat % 16)]

/-- `Display` of a `Uuid`. -/
def displayUuid (id : Uuid) : String :=
  let digits := (toBE 16 id.toNat).flatMap hexDigits
  String.ofList ("-".toList.intercalate [digits.take 8, (digits.drop 8).take 4, (digits.drop 12).take 4,
    (digits.drop 16).take 4, digits.drop 20])

/-- The fingerprint of the first certificate of the file: its digest, byte by byte. -/
def fingerprintOf (c : Crates) (pem : List UInt8) : Except String String :=
  match c.certs pem with
  | none => .error "No certificate found"
  | some cert => cert.map fun cert => ":".intercalate
    ((c.digest cert).map fun byte => String.ofList ((hexDigits byte).map Char.toUpper))

def buildFingerprintFromPublicKey (c : Crates) (p : Process D) : Proc D String := do
  let pem ← readFile p .readCert (p.cwd, NODE_CERT_FILE)
  of (fingerprintOf c pem)

def bootstrapSignature (nodeId : Uuid) (fingerprint : String) : String := displayUuid nodeId ++ ":" ++ fingerprint

/-- The same text: no issuer is asked. -/
def peerSignature (nodeId : Uuid) (fingerprint : String) : String := displayUuid nodeId ++ ":" ++ fingerprint

/-! ## `NodeIdentity::new` -/

/-- The identity that a start builds for this certificate. The node is its own issuer. -/
def Start.identity (start : Start D) (config : TrenchConfig) (fingerprint signature : String) : NodeIdentity :=
  let region := if config.region = "" then "us-east-1" else config.region
  { id := start.id
    region
    address := config.nodeAddress
    status := "active"
    issuer :=
      { id := start.id
        fingerprint
        address := config.nodeAddress
        region
        status := "active"
        issuerBootstraped := start.bootstraped }
    fingerprint
    signature
    bootstraped := start.bootstraped }

/-- `bootstrap_node` and `full_node` differ in the flag and in the signature. -/
def createNode (c : Crates) (start : Start D) (signature : Uuid → String → String) (config : TrenchConfig) :
    Proc D NodeIdentity := do
  createCertificates start
  let fingerprint ← buildFingerprintFromPublicKey c start.toProcess
  pure (start.identity config fingerprint (signature start.id fingerprint))

def bootstrapNode (c : Crates) (start : Start D) (config : TrenchConfig) : Proc D NodeIdentity :=
  createNode c { start with bootstraped := true } bootstrapSignature config

def fullNode (c : Crates) (start : Start D) (config : TrenchConfig) : Proc D NodeIdentity :=
  createNode c { start with bootstraped := false } peerSignature config

def saveToVault (c : Crates) (p : Process D) (identity : NodeIdentity) (v : IdentityVault) : Proc D Unit :=
  v.save p c identity

def fromVault (c : Crates) (p : Process D) (v : IdentityVault) : Proc D NodeIdentity := v.loadIdentity p c

/-- `NodeIdentity::new`. Without the flag, too, a node without a vault makes itself an identity. -/
def newIdentity (c : Crates) (start : Start D) : Proc D NodeIdentity := do
  let config ← of (loadConfig start.config)
  let vault : IdentityVault := { root := config.identityVaultPath }
  let present ← look (vault.exists start.toProcess)
  if !present then
    if start.bootstraped then
      let identity ← bootstrapNode c start config
      saveToVault c start.toProcess identity vault
      pure identity
    else
      let identity ← fullNode c start config
      saveToVault c start.toProcess identity vault
      pure identity
  else
    let present ← look (vault.exists start.toProcess)
    if present then
      vault.copyCertsToWorkingDir start.toProcess
      fromVault c start.toProcess vault
    else
      stop ("no identity vault found at " ++ config.identityVaultPath ++ ". Run with --bootstrap to create one.")

end TrenchDb.Identity
