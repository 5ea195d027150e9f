import TrenchDb.Identity.Starts

/-!
# One node, many starts

A node makes its identity once. What its first good start generates stays in the vault, and every later
start comes back with it.
-/

open TrenchDb.Lib TrenchDb.Lib.Stopping TrenchDb.Lib.Lts TrenchDb.Rpc TrenchDb.Storage TrenchDb.Transport

namespace TrenchDb.Identity

/-- One start, what it returns, and the files that it leaves. -/
structure Boot (D : Type) where
  start : Start D
  result : Except String NodeIdentity
  disk : Disk D

variable {D : Type}

/-- The pair in a working directory. -/
structure InUse (pair : KeyPair) (dir : D) (disk : Disk D) : Prop where
  cert : disk (dir, NODE_CERT_FILE) = some pair.cert
  key : disk (dir, NODE_KEY_FILE) = some pair.key

/-- The vault holds an identity, which has the fingerprint of the certificate that is there. -/
structure Vaulted (c : Crates) (root : D) (identity : NodeIdentity) (pair : KeyPair) (disk : Disk D) : Prop where
  saved : Saved c root identity pair disk
  fingerprint : fingerprintOf c pair.cert = .ok identity.fingerprint

/-- Either no start has come back and the vault has no key, or the vault holds what all of them came back with. -/
def Kept (c : Crates) (root : D) (boots : List (Boot D)) (disk : Disk D) : Prop :=
  (disk (root, NODE_KEY_FILE) = none ∧ ∀ boot ∈ boots, ∀ identity, boot.result ≠ .ok identity) ∨
    ∃ identity pair, Vaulted c root identity pair disk ∧ ∀ boot ∈ boots, ∀ identity', boot.result = .ok identity' →
      identity' = identity ∧ InUse pair boot.start.cwd boot.disk

/-- It stops nowhere, works beside the vault, and has what an identity is made of. -/
structure Start.Ready (c : Crates) (root : D) (start : Start D) : Prop where
  fault : start.fault = none
  beside : start.cwd ≠ root
  generates : ∃ identity pair, start.Generates c identity pair ∧ (c.codec.byteSerialize identity).length < 2 ^ 64

section Vaults

variable {c : Crates} {root : D} {disk disk' : Disk D} {identity : NodeIdentity} {pair : KeyPair} {p : Process D}
  {v : IdentityVault}

theorem Vaulted.congr (h : Vaulted c root identity pair disk)
    (hroot : ∀ name, disk' (root, name) = disk (root, name)) : Vaulted c root identity pair disk' :=
  ⟨h.saved.congr hroot, h.fingerprint⟩

theorem InUse.congr (h : InUse pair root disk) (hdir : ∀ name, disk' (root, name) = disk (root, name)) :
    InUse pair root disk' :=
  ⟨(hdir _).trans h.cert, (hdir _).trans h.key⟩

theorem Saved.loadIdentity_ends (h : Saved c (p.resolve v.root) identity pair disk) (hcodec : c.codec.RoundTrips) :
    Ends (v.loadIdentity p c) (fun identity' disk' => identity' = identity ∧ disk' = disk)
      (fun disk' => disk' = disk ∧ p.fault ≠ none) disk := by
  simp only [IdentityVault.loadIdentity, ends_bind, ends_mapError, ends_of]
  refine ends_readFile (fun bytes hbytes => ?_) fun hstop => ⟨rfl, ?_⟩
  · obtain rfl : c.codec.byteSerialize identity = bytes := Option.some.inj (h.identity.symm.trans hbytes)
    refine ends_useFile ?_ fun hstop => ⟨rfl, hstop⟩
    simp [hcodec identity h.fits, Except.mapError]
  · exact hstop.resolve_right fun hnone => Option.some_ne_none _ (h.identity.symm.trans hnone)

end Vaults

variable [DecidableEq D]

/-- A start on the vault in the directory `root`, seen as a whole. -/
structure Booted (c : Crates) (root : D) (disk : Disk D) (boot : Boot D) (disk' : Disk D) : Prop
    extends CarefulStep c root disk boot.start disk' where
  result_eq : boot.result = (newIdentity c boot.start disk).1
  left_eq : boot.disk = disk'

/-- A start from this disk. -/
def Start.boot (c : Crates) (start : Start D) (disk : Disk D) : Boot D :=
  ⟨start, (newIdentity c start disk).1, (newIdentity c start disk).2⟩

theorem booted {c : Crates} {root : D} {start : Start D} {disk disk' : Disk D}
    (h : CarefulStep c root disk start disk') : Booted c root disk (start.boot c disk) disk' :=
  ⟨h, rfl, h.disk_eq.symm⟩

section Parts

variable {c : Crates} {root : D} {start : Start D} {p : Process D} {v : IdentityVault} {disk disk' : Disk D}
  {signature : Uuid → String → String} {config : TrenchConfig} {identity : NodeIdentity} {pair : KeyPair}
  {call : Call} {path : Path D} {bytes : List UInt8}

theorem InUse.put (h : InUse pair p.cwd disk) (hne : p.cwd ≠ path.1) : InUse pair p.cwd (disk.put path bytes) :=
  h.congr fun _ => Disk.put_of_ne (path_ne hne)

theorem writeFile_stops {Q : Unit → Disk D → Prop} (hdone : Q () (disk.put path bytes)) :
    Ends (writeFile p call path bytes) Q (fun _ => p.fault ≠ none) disk :=
  ends_writeFile (fun _ => hdone) (fun _ h _ => Process.stops_fault h) fun _ _ h _ => Process.stops_fault h

/-! ### What they leave alone -/

theorem save_onlyIn : Ends (v.save p c identity) (fun _ => OnlyIn (p.resolve v.root) disk)
    (OnlyIn (p.resolve v.root) disk) disk := by
  have hself : OnlyIn (p.resolve v.root) disk disk := fun _ _ => rfl
  simp only [IdentityVault.save, ends_bind]
  refine ends_useFile ?_ fun _ => hself
  refine ends_allocate (fun _ => ?_) hself
  refine (writeFile_onlyIn hself).mono (fun _ disk₁ h₁ => ?_) fun _ h => h
  refine ends_useFile ?_ fun _ => h₁.1
  refine ends_copyFile_any h₁.1 fun cert => (writeFile_onlyIn h₁.1).mono (fun _ disk₂ h₂ => ?_) fun _ h => h
  exact ends_copyFile_any h₂.1 fun key => (writeFile_onlyIn h₂.1).mono (fun _ _ h => h.1) fun _ h => h

/-! ### Where they stop -/

theorem createNode_stops (hgen : start.Generates c identity pair) (hconfig : loadConfig start.config = .ok config) :
    Ends (createNode c start bootstrapSignature config)
      (fun identity' disk' => identity' = identity ∧ InUse pair start.cwd disk')
      (fun _ => start.fault ≠ none) disk := by
  obtain ⟨hpair, config', fingerprint, hconfig', hfingerprint, rfl⟩ := hgen
  obtain rfl := Except.ok.inj (hconfig.symm.trans hconfig')
  have hne : (start.cwd, NODE_CERT_FILE) ≠ (start.cwd, NODE_KEY_FILE) := by simp [NODE_CERT_FILE, NODE_KEY_FILE]
  simp only [createNode, createCertificates, buildFingerprintFromPublicKey, ends_bind, ends_of, ends_pure, hpair,
    Except.ok.injEq, forall_eq', reduceCtorEq, false_implies, implies_true, and_true]
  refine writeFile_stops (writeFile_stops ?_)
  have huse : InUse pair start.cwd
      ((disk.put (start.cwd, NODE_CERT_FILE) pair.cert).put (start.cwd, NODE_KEY_FILE) pair.key) :=
    ⟨(Disk.put_of_ne hne).trans Disk.put_self, Disk.put_self⟩
  refine ends_readFile (fun pem hpem => ?_) fun hstop => hstop.resolve_right fun hnone => ?_
  · obtain rfl : pair.cert = pem := Option.some.inj (huse.cert.symm.trans hpem)
    simpa [hfingerprint] using huse
  · exact Option.some_ne_none _ (huse.cert.symm.trans hnone)

theorem save_stops (hcwd : p.cwd ≠ p.resolve v.root) (huse : InUse pair p.cwd disk)
    (hfits : (c.codec.byteSerialize identity).length < 2 ^ 64) :
    Ends (v.save p c identity) (fun _ _ => True) (fun _ => p.fault ≠ none) disk := by
  simp only [IdentityVault.save, allocate, if_pos hfits, ends_bind, ends_pure]
  refine ends_useFile (writeFile_stops (ends_useFile ?_ id)) id
  refine ends_copyFile (path_ne hcwd) (huse.put hcwd).cert (writeFile_stops ?_)
  exact ends_copyFile (path_ne hcwd) ((huse.put hcwd).put hcwd).key (writeFile_stops trivial)

theorem copyCerts_inUse (hcwd : p.cwd ≠ p.resolve v.root) (hsaved : Saved c (p.resolve v.root) identity pair disk) :
    Ends (v.copyCertsToWorkingDir p) (fun _ => InUse pair p.cwd) (fun _ => p.fault ≠ none) disk := by
  have hne : (p.cwd, NODE_CERT_FILE) ≠ (p.cwd, NODE_KEY_FILE) := by simp [NODE_CERT_FILE, NODE_KEY_FILE]
  simp only [IdentityVault.copyCertsToWorkingDir, ends_bind]
  refine ends_copyFile (path_ne hcwd.symm) hsaved.cert (writeFile_stops ?_)
  refine ends_copyFile (path_ne hcwd.symm) ((Disk.put_of_ne (path_ne hcwd.symm)).trans hsaved.key) (writeFile_stops ?_)
  exact ⟨(Disk.put_of_ne hne).trans Disk.put_self, Disk.put_self⟩

end Parts

/-! ## A start as a whole -/

section Whole

variable {c : Crates} {root : D} {start : Start D} {disk disk' : Disk D} {signature : Uuid → String → String}
  {config : TrenchConfig} {v : IdentityVault} {identity : NodeIdentity} {pair : KeyPair}

/-- What a start leaves that comes back with an identity. -/
def Leaves (c : Crates) (root : D) (start : Start D) (identity : NodeIdentity) (disk : Disk D) : Prop :=
  ∃ pair, Vaulted c root identity pair disk ∧ InUse pair start.cwd disk

/-- What a start leaves that does not, where there was no vault. -/
def Abandoned (c : Crates) (root : D) (disk : Disk D) : Prop :=
  disk (root, NODE_KEY_FILE) = none ∨ ∃ identity pair, Vaulted c root identity pair disk

theorem create_leaves (hnone : disk (v.nodeKeyPath start.toProcess) = none)
    (hearly : start.cwd = start.resolve v.root → start.StopsEarly false) (htears : ¬ start.TearsKey) :
    Ends (createNode c start signature config)
      (fun identity => Ends (saveToVault c start.toProcess identity v)
        (fun _ => Leaves c (start.resolve v.root) start identity) (Abandoned c (start.resolve v.root)))
      (Abandoned c (start.resolve v.root)) disk := by
  by_cases hcwd : start.cwd = start.resolve v.root
  · refine (createNode_early (hearly hcwd)).mono (fun _ _ h => h.elim) fun disk' h => .inl ?_
    rw [← hcwd, h, hcwd]
    exact hnone
  · have hne : ∀ disk', OnlyIn start.cwd disk disk' → disk' (v.nodeKeyPath start.toProcess) = none := fun disk' h =>
      (h _ (Ne.symm hcwd)).trans hnone
    refine createNode_ends.mono (fun identity disk' h => ?_) fun disk' h => .inl (hne disk' h)
    obtain ⟨honly, pair, fingerprint, hpair, hfingerprint, rfl, hcert, hkey⟩ := h
    refine ((save_ends hcwd hcert hkey (hne disk' honly) fun fault n hfault hn => ?_).and save_onlyIn).mono
      (fun _ disk'' h => ?_) fun _ h => h.1.imp_right fun hsaved => ⟨_, pair, hsaved, hfingerprint⟩
    · exact Nat.le_of_not_lt fun hlt => htears ⟨fault, n, pair, hfault, hn, hpair, hlt⟩
    exact ⟨pair, ⟨h.1, hfingerprint⟩, InUse.congr ⟨hcert, hkey⟩ fun _ => h.2 _ hcwd⟩

theorem reuse_leaves (hcodec : c.codec.RoundTrips) (hvault : Vaulted c (start.resolve v.root) identity pair disk)
    (hearly : start.cwd = start.resolve v.root → start.StopsEarly true) :
    Ends (v.copyCertsToWorkingDir start.toProcess)
      (fun _ => Ends (fromVault c start.toProcess v)
        (fun identity' disk' => identity' = identity ∧ Vaulted c (start.resolve v.root) identity pair disk' ∧
          InUse pair start.cwd disk')
        (Vaulted c (start.resolve v.root) identity pair))
      (Vaulted c (start.resolve v.root) identity pair) disk := by
  by_cases hcwd : start.cwd = start.resolve v.root
  · exact (copyCerts_early (hearly hcwd)).mono (fun _ _ h => h.elim) fun _ h => h ▸ hvault
  · have hkept : ∀ disk', OnlyIn start.cwd disk disk' → Vaulted c (start.resolve v.root) identity pair disk' :=
      fun disk' h => hvault.congr fun name => h _ (Ne.symm hcwd)
    refine ((copyCerts_ends hcwd hvault.saved).and (copyCerts_inUse hcwd hvault.saved)).mono
      (fun _ disk' h => ?_) fun disk' h => hkept disk' h.1
    have hvault' := hkept disk' h.1
    exact (hvault'.saved.loadIdentity_ends hcodec).mono
      (fun _ _ hload => ⟨hload.1, hload.2 ▸ hvault', hload.2 ▸ h.2⟩) fun _ hload => hload.1 ▸ hvault'

theorem first_leaves (hcareful : start.Careful root disk)
    (hvault : ∀ config, loadConfig start.config = .ok config → start.resolve config.identityVaultPath = root)
    (hnone : disk (root, NODE_KEY_FILE) = none) :
    Ends (newIdentity c start) (Leaves c root start) (Abandoned c root) disk := by
  simp only [newIdentity, ends_bind, ends_of, ends_look]
  refine ⟨fun config hconfig => ?_, fun _ _ => .inl hnone⟩
  obtain ⟨hearly, htears⟩ := hcareful config _ hconfig rfl
  obtain rfl := hvault config hconfig
  set v : IdentityVault := { root := config.identityVaultPath }
  have habsent : v.exists start.toProcess disk = false := by
    have hkey : disk (v.nodeKeyPath start.toProcess) = none := hnone
    simp [IdentityVault.exists, hkey]
  rw [habsent] at hearly
  have hcreate := fun signature => @create_leaves _ _ c start disk signature config v hnone hearly (htears habsent)
  cases hflag : start.bootstraped with
  | true =>
    have hself : { start with bootstraped := true } = start := by rw [← hflag]
    simpa [habsent, bootstrapNode, hself] using hcreate bootstrapSignature
  | false =>
    have hself : { start with bootstraped := false } = start := by rw [← hflag]
    simpa [habsent, fullNode, hself] using hcreate peerSignature

theorem later_leaves (hcodec : c.codec.RoundTrips) (hcareful : start.Careful root disk)
    (hvault : ∀ config, loadConfig start.config = .ok config → start.resolve config.identityVaultPath = root)
    (hkept : Vaulted c root identity pair disk) :
    Ends (newIdentity c start)
      (fun identity' disk' => identity' = identity ∧ Vaulted c root identity pair disk' ∧ InUse pair start.cwd disk')
      (Vaulted c root identity pair) disk := by
  simp only [newIdentity, ends_bind, ends_of, ends_look]
  refine ⟨fun config hconfig => ?_, fun _ _ => hkept⟩
  obtain ⟨hearly, -⟩ := hcareful config _ hconfig rfl
  obtain rfl := hvault config hconfig
  set v : IdentityVault := { root := config.identityVaultPath }
  have hpresent : v.exists start.toProcess disk = true := hkept.saved.exists_eq
  rw [hpresent] at hearly
  simpa [hpresent] using reuse_leaves hcodec hkept hearly

theorem kept_of_run {disk₀ : Disk D} {boots : List (Boot D)} (hcodec : c.codec.RoundTrips)
    (hnew : disk₀ (root, NODE_KEY_FILE) = none) (hrun : Run (Booted c root) disk₀ boots disk) :
    Kept c root boots disk := by
  refine hrun.invariant (P := fun boots disk => Kept c root boots disk) (.inl ⟨hnew, by simp⟩)
    fun boots disk boot disk' hkept hstep => ?_
  obtain ⟨⟨⟨hvault, rfl⟩, hcareful⟩, hresult, hleft⟩ := hstep
  obtain ⟨hnone, hall⟩ | ⟨identity, pair, hvaulted, hall⟩ := hkept
  · have hends := @first_leaves _ _ c _ _ _ hcareful hvault hnone
    cases heq : boot.result with
    | error e =>
      have hnot : ∀ boot' ∈ boots ++ [boot], ∀ identity, boot'.result ≠ .ok identity :=
        List.forall_mem_append.mpr ⟨hall, by simp [heq]⟩
      obtain hnone' | ⟨identity, pair, hvaulted⟩ := hends.stopped (hresult.symm.trans heq)
      · exact .inl ⟨hnone', hnot⟩
      · exact .inr ⟨identity, pair, hvaulted, fun boot' hmem identity' hok => absurd hok (hnot boot' hmem identity')⟩
    | ok identity =>
      obtain ⟨pair, hvaulted, huse⟩ := hends.ok (hresult.symm.trans heq)
      refine .inr ⟨identity, pair, hvaulted, List.forall_mem_append.mpr
        ⟨fun boot' hmem identity' hok => absurd hok (hall boot' hmem identity'), ?_⟩⟩
      simp only [List.mem_singleton, forall_eq, heq, hleft]
      exact fun identity' hok => ⟨(Except.ok.inj hok).symm, huse⟩
  · have hends := @later_leaves _ _ c _ _ _ _ _ hcodec hcareful hvault hvaulted
    refine .inr ⟨identity, pair, ?_, List.forall_mem_append.mpr ⟨hall, ?_⟩⟩
    · exact (hends.mono (fun _ _ h => h.2.1) fun _ h => h).state
    · simp only [List.mem_singleton, forall_eq, hleft]
      intro identity' hok
      obtain ⟨hsame, -, huse⟩ := hends.ok (hresult.symm.trans hok)
      exact ⟨hsame, huse⟩

theorem newIdentity_returns {boots : List (Boot D)} (hcodec : c.codec.RoundTrips) (hready : start.Ready c root)
    (hvault : ∀ config, loadConfig start.config = .ok config → start.resolve config.identityVaultPath = root)
    (hkept : Kept c root boots disk) :
    Ends (newIdentity c start) (fun _ _ => True) (fun _ => start.fault ≠ none) disk := by
  obtain ⟨-, hbeside, identity, pair, hgen, hfits⟩ := hready
  obtain ⟨-, config, -, hconfig, -⟩ := id hgen
  obtain rfl := hvault config hconfig
  simp only [newIdentity, ends_bind, ends_of, ends_look, hconfig, Except.ok.injEq, forall_eq', reduceCtorEq,
    false_implies, implies_true, and_true]
  set v : IdentityVault := { root := config.identityVaultPath }
  obtain ⟨hnone, -⟩ | ⟨identity', pair', hvaulted, -⟩ := hkept
  · have habsent : v.exists start.toProcess disk = false := by
      have hkey : disk (v.nodeKeyPath start.toProcess) = none := hnone
      simp [IdentityVault.exists, hkey]
    have hcreate : Ends (createNode c start bootstrapSignature config)
        (fun identity' => Ends (saveToVault c start.toProcess identity' v) (fun _ _ => True)
          fun _ => start.fault ≠ none)
        (fun _ => start.fault ≠ none) disk := by
      refine (createNode_stops hgen hconfig).mono (fun identity' disk' h => ?_) fun _ h => h
      obtain ⟨rfl, huse⟩ := h
      exact save_stops hbeside huse hfits
    cases hflag : start.bootstraped with
    | true =>
      have hself : { start with bootstraped := true } = start := by rw [← hflag]
      simpa [habsent, bootstrapNode, hself] using hcreate
    | false =>
      have hself : { start with bootstraped := false } = start := by rw [← hflag]
      have hsame : peerSignature = bootstrapSignature := rfl
      simpa [habsent, fullNode, hself, hsame] using hcreate
  · have hpresent : v.exists start.toProcess disk = true := hvaulted.saved.exists_eq
    simp only [hpresent, Bool.not_true, Bool.false_eq_true, if_false, if_true, ends_bind, ends_look]
    refine ((copyCerts_ends hbeside hvaulted.saved).and (copyCerts_inUse hbeside hvaulted.saved)).mono
      (fun _ disk' h => ?_) fun _ h => h.2
    have hsaved := hvaulted.saved.congr fun name => h.1 (start.resolve v.root, name) (Ne.symm hbeside)
    exact (hsaved.loadIdentity_ends hcodec).mono (fun _ _ _ => trivial) fun _ h => h.2

/-- All starts of a run that come back with an identity come back with the same one. The vault keeps it, with its
certificate and its key. Each of these starts leaves the pair in its working directory, and seeds the store with
the record of the vault. -/
theorem one_identity {disk₀ : Disk D} {boots : List (Boot D)} {boot : Boot D} (hcodec : c.codec.RoundTrips)
    (hnew : disk₀ (root, NODE_KEY_FILE) = none) (hrun : Run (Booted c root) disk₀ boots disk) (hmem : boot ∈ boots)
    (hok : boot.result = .ok identity) :
    ∃ pair, Saved c root identity pair disk ∧ fingerprintOf c pair.cert = .ok identity.fingerprint ∧
      ∀ boot' ∈ boots, ∀ identity', boot'.result = .ok identity' →
        identity' = identity ∧ InUse pair boot'.start.cwd boot'.disk ∧
        ∀ s, ∃ bytes, disk (root, IDENTITY_FILE) = some bytes ∧
          RecordKept bytes (seedIdentity c.codec identity' s) := by
  obtain ⟨-, hall⟩ | ⟨identity', pair, hvaulted, hall⟩ := kept_of_run hcodec hnew hrun
  · exact absurd hok (hall boot hmem identity)
  · obtain rfl := (hall boot hmem identity hok).1
    refine ⟨pair, hvaulted.saved, hvaulted.fingerprint, fun boot' hmem' identity' hok' => ?_⟩
    obtain ⟨rfl, huse⟩ := hall boot' hmem' identity' hok'
    exact ⟨rfl, huse, fun s => ⟨_, hvaulted.saved.identity, seeded_record c.codec identity' s⟩⟩

end Whole

/-! ### A node that is started again -/

/-- A start that crashes with a part of the certificate in the vault. -/
def crashing : Boot String := (nodeStart 1 (some ⟨.copyCert, some 5, "crash"⟩)).boot prefixedCrates fun _ => none

def second : Boot String := (nodeStart 2 none).boot prefixedCrates crashing.disk

def third : Boot String := (nodeStart 3 none).boot prefixedCrates second.disk

theorem nodeStart_booted {id : Uuid} {fault : Option Fault} (hcall : ∀ f, fault = some f → f.call ≠ .copyKey)
    (disk : Disk String) : Booted prefixedCrates "/srv/identity" disk ((nodeStart id fault).boot prefixedCrates disk)
      ((nodeStart id fault).boot prefixedCrates disk).disk :=
  booted ⟨nodeStart_step id fault disk, nodeStart_careful hcall⟩

theorem crashing_run : Run (Booted prefixedCrates "/srv/identity") (fun _ => none) [crashing] crashing.disk :=
  .single (nodeStart_booted (by simp) _)

theorem third_run : Run (Booted prefixedCrates "/srv/identity") (fun _ => none) [crashing, second, third] third.disk :=
  (crashing_run.snoc (nodeStart_booted (by simp) crashing.disk)).snoc (nodeStart_booted (by simp) second.disk)

theorem one_identity_restarted : ∃ identity pair, Saved prefixedCrates "/srv/identity" identity pair third.disk ∧
    ∀ boot ∈ [crashing, second, third], ∀ identity', boot.result = .ok identity' → identity' = identity := by
  have hreturns : second.result.toBool = true := by decide +kernel
  cases hok : second.result with
  | error e => simp [hok, Except.toBool] at hreturns
  | ok identity =>
    obtain ⟨pair, hsaved, -, hall⟩ :=
      one_identity (formatCodec_roundTrips identityFormat) rfl third_run (by simp) hok
    exact ⟨identity, pair, hsaved, fun boot hmem identity' hok' => (hall boot hmem identity' hok').1⟩

section Ready

variable {c : Crates} {root : D} {start : Start D} {disk : Disk D}

/-- After any run, whatever the crashes in it, a start that is ready comes back with an identity: that of the
starts before it, if one of them came back. -/
theorem ready_start_returns {disk₀ : Disk D} {boots : List (Boot D)} (hcodec : c.codec.RoundTrips)
    (hnew : disk₀ (root, NODE_KEY_FILE) = none) (hrun : Run (Booted c root) disk₀ boots disk)
    (hready : start.Ready c root)
    (hvault : ∀ config, loadConfig start.config = .ok config → start.resolve config.identityVaultPath = root) :
    ∃ identity, (newIdentity c start disk).1 = .ok identity ∧
      ∀ boot ∈ boots, ∀ identity', boot.result = .ok identity' → identity' = identity := by
  have hkept := kept_of_run hcodec hnew hrun
  have hreturns := newIdentity_returns hcodec hready hvault hkept
  cases heq : (newIdentity c start disk).1 with
  | error e => exact absurd hready.fault (hreturns.stopped heq)
  | ok identity =>
    refine ⟨identity, rfl, fun boot hmem identity' hok => ?_⟩
    obtain ⟨-, hall⟩ | ⟨identity'', pair, hvaulted, hall⟩ := hkept
    · exact absurd hok (hall boot hmem identity')
    · have hcareful : start.Careful root disk := fun config v hconfig hv =>
        ⟨fun hcwd => absurd hcwd hready.beside, fun _ ⟨fault, _, _, hstops, _⟩ =>
          absurd hready.fault (Process.stops_fault hstops)⟩
      have hlater := (later_leaves hcodec hcareful hvault hvaulted).ok heq
      exact (hall boot hmem identity' hok).1.trans hlater.1.symm

end Ready

theorem nodeStart_ready : (nodeStart 2 none).Ready prefixedCrates "/srv/identity" where
  fault := rfl
  beside := by simp [nodeStart]
  generates := by
    have hload : loadConfig (nodeStart 2 none).config = .ok ⟨"127.0.0.1:9000", "", "identity"⟩ := by decide +kernel
    have hfingerprint : fingerprintOf prefixedCrates certText = .ok ("70:9E:80:C8:84:87:A2:41:1E:1E:E4:DF:B9:F2:2A:86:"
        ++ "14:92:D2:0C:47:65:15:0C:0C:79:4A:BD:70:F8:14:7C") := by decide +kernel
    exact ⟨_, ⟨certText, keyText⟩, ⟨rfl, _, _, hload, hfingerprint, rfl⟩, by decide +kernel⟩

theorem ready_start_returns_crashed : ∃ identity,
    (newIdentity prefixedCrates (nodeStart 2 none) crashing.disk).1 = .ok identity ∧
    ∀ boot ∈ [crashing], ∀ identity', boot.result = .ok identity' → identity' = identity :=
  ready_start_returns (formatCodec_roundTrips identityFormat) rfl crashing_run nodeStart_ready
    (nodeStart_step 2 none crashing.disk).vault

end TrenchDb.Identity
