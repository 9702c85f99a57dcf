import PicoFido2.Fido2.FileRequests

/-! Which runs of a host without a PIN leave the secret files alone. The rows whose access
bytes are written `{ 0xff }` have zeros in the bytes of reads and writes, so they are open
to everybody; all other rows with keys, PINs and tokens are closed. -/

namespace PicoFido2.Fido2

open Machine

/-- The files with keys, PINs and tokens. -/
def Ef.isSecret : Ef → Bool
  | pw1 | rc | pw3 | pkSig | pkDec | pkAut | dek
  | pivKeyAuthentication | pivKeyCardmgm | pivKeySignature | pivKeyKeymgm | pivKeyCardauth
  | pivKeyRetired1 | pivKeyRetired2 | pivKeyRetired3 | pivKeyRetired4 | pivKeyRetired5
  | pivKeyRetired6 | pivKeyRetired7 | pivKeyRetired8 | pivKeyRetired9 | pivKeyRetired10
  | pivKeyRetired11 | pivKeyRetired12 | pivKeyRetired13 | pivKeyRetired14 | pivKeyRetired15
  | pivKeyRetired16 | pivKeyRetired17 | pivKeyRetired18 | pivKeyRetired19 | pivKeyRetired20
  | pivKeyAttestation | pivPin | pivPuk
  | keyDev | keyDevEnc | mkek | pin | authtoken | pauthtoken | otpPin => true
  | _ => false

def Fid.isSecret : Fid → Bool
  | num _ => false
  | .ef e => e.isSecret

def Fid.ef? : Fid → Option Ef
  | num _ => none
  | .ef e => some e

/-- The stores have data in the same files, and the same data in the files that are not
secret. -/
def SameButSecrets (ef : Ef → BitVec 16) (s t : Store) : Prop :=
  (∀ fid, (s fid).isSome = (t fid).isSome) ∧
    ∀ fid, (∀ e : Ef, e.isSecret → ef e ≠ fid) → s fid = t fid

/-- What the card makes of its data objects has nothing of the contents of secret files. -/
def ParsesPublic (card : Card) (ef : Ef → BitVec 16) : Prop :=
  ∀ handler file s t, SameButSecrets ef s t → card.parse handler file s = card.parse handler file t

/-- The run changes no internal file, and its responses tell nothing about secret files. -/
def Isolated (card : Card) (ef : Ef → BitVec 16) (run : List Request) : Prop :=
  (∀ s, ∀ file ∈ fileEntries, file.type = .internalEf →
    final (respond card ef) run s (file.fid.value ef) = s (file.fid.value ef)) ∧
  ∀ s t, SameButSecrets ef s t →
    outputs (respond card ef) run s = outputs (respond card ef) run t

/-- The request gets to a row with the access bytes `{ 0xff }`, to write it, or to read it
where it is secret. -/
def Request.OpensShort (ef : Ef → BitVec 16) (r : Request) : Prop :=
  ∃ file, searchByFid ef r.fid = some file ∧ file.acl = aclShort ∧
    (r.access = .read → file.fid.isSecret)

/-! ### The table -/

section Table

set_option maxRecDepth 4096

/-- Only rows with the access bytes `{ 0xff }` may be written without a PIN. -/
theorem acl_of_write : ∀ file ∈ fileEntries,
    file.acl.granted .write ∨ file.acl.granted .update → file.acl = aclShort := by
  decide

/-- Only rows with the access bytes `{ 0xff }` show a secret file without a PIN. -/
theorem acl_of_read : ∀ file ∈ fileEntries,
    file.acl.granted .read → file.fid.isSecret → file.acl = aclShort := by
  decide

theorem flash_of_short : ∀ file ∈ fileEntries,
    file.acl = aclShort → file.type = .internalEf ∧ file.data = .flash := by
  decide

theorem ef_of_flash : ∀ file ∈ fileEntries, file.data = .flash → file.fid.ef?.isSome := by
  decide

end Table

/-! ### Runs that stay away from the open rows -/

variable {card : Card} {ef : Ef → BitVec 16}

theorem acl_of_put {file : FileEntry} (hmem : file ∈ fileEntries) {access : Access}
    (hput : access ≠ .read) (hgranted : file.acl.granted access) : file.acl = aclShort := by
  cases access with
  | write => exact acl_of_write file hmem (.inl hgranted)
  | update => exact acl_of_write file hmem (.inr hgranted)
  | read => exact absurd rfl hput

/-- Every request leaves the store as it is, unless it writes to an open row. -/
theorem respond_fixed {r : Request} (h : ¬ r.OpensShort ef) (s : Store) :
    (respond card ef r s).2 = s := by
  cases hfile : searchByFid ef r.fid with
  | none => exact (respond_denied (fun file hsome => by simp [hfile] at hsome) s).1
  | some file =>
    by_cases hgranted : file.acl.granted r.access
    · by_cases hread : r.access = .read
      · rw [respond_read hread hfile hgranted]
      · have hshort := acl_of_put (searchByFid_mem hfile).1 hread hgranted
        exact absurd ⟨file, hfile, hshort, fun h => absurd h hread⟩ h
    · refine (respond_denied (fun file' hsome => ?_) s).1
      obtain rfl : file = file' := Option.some.inj (hfile.symm.trans hsome)
      simpa using hgranted

/-- The contents of a file that is not secret are the same in stores that differ only in
secret files. -/
theorem contents_eq (hef : Function.Injective ef) (hparse : ParsesPublic card ef)
    {file : FileEntry} (hmem : file ∈ fileEntries) (hpublic : ¬ file.fid.isSecret) {s t : Store}
    (hst : SameButSecrets ef s t) : file.contents card ef s = file.contents card ef t := by
  unfold FileEntry.contents
  cases hdata : file.data with
  | flash =>
    have hfid := ef_of_flash file hmem hdata
    cases hrow : file.fid with
    | num fid => rw [hrow] at hfid; simp [Fid.ef?] at hfid
    | ef e =>
      apply hst.2
      -- another constant with this number would be the same constant
      rintro e' hsecret heq
      obtain rfl : e' = e := hef heq
      rw [hrow] at hpublic
      exact hpublic hsecret
  | func handler => exact congrArg some (hparse handler file s t hst)
  | _ => rfl

/-- The response to a request is the same in stores that differ only in secret files,
unless it reads an open row. -/
theorem respond_eq (hef : Function.Injective ef) (hparse : ParsesPublic card ef) {r : Request}
    (h : ¬ r.OpensShort ef) {s t : Store} (hst : SameButSecrets ef s t) :
    (respond card ef r s).1 = (respond card ef r t).1 := by
  cases hfile : searchByFid ef r.fid with
  | none => exact ((respond_denied (fun file hsome => by simp [hfile] at hsome) t).2 s)
  | some file =>
    have hmem := (searchByFid_mem hfile).1
    by_cases hgranted : file.acl.granted r.access
    · by_cases hread : r.access = .read
      · rw [respond_read hread hfile hgranted, respond_read hread hfile hgranted]
        have hpublic : ¬ file.fid.isSecret := fun hsecret =>
          h ⟨file, hfile, acl_of_read file hmem (hread ▸ hgranted) hsecret, fun _ => hsecret⟩
        exact congrArg Response.contents (contents_eq hef hparse hmem hpublic hst)
      · rw [respond_put hread hfile hgranted, respond_put hread hfile hgranted]
    · refine (respond_denied (fun file' hsome => ?_) t).2 s
      obtain rfl : file = file' := Option.some.inj (hfile.symm.trans hsome)
      simpa using hgranted

theorem isolated_of_away (hef : Function.Injective ef) (hparse : ParsesPublic card ef)
    {run : List Request} (h : ∀ r ∈ run, ¬ r.OpensShort ef) : Isolated card ef run := by
  have hfixed : ∀ r ∈ run, ∀ s, (respond card ef r s).2 = s := fun r hr => respond_fixed (h r hr)
  constructor
  · intro s file _ _
    rw [final_of_fixed hfixed]
  · intro s t hst
    apply outputs_eq (R := SameButSecrets ef) _ hst
    intro r hr s t hst
    refine ⟨respond_eq hef hparse (h r hr) hst, ?_⟩
    rw [hfixed r hr, hfixed r hr]
    exact hst

/-! ### Runs that open them -/

theorem granted_of_short {file : FileEntry} (h : file.acl = aclShort) (access : Access) :
    file.acl.granted access := by
  rw [h]
  cases access <;> decide

/-- A run that writes to an open row leaves data in an internal file that was empty. -/
theorem not_isolated_of_put {run : List Request} {r : Request} (hr : r ∈ run)
    (hopens : r.OpensShort ef) (hput : r.access ≠ .read) : ¬ Isolated card ef run := by
  obtain ⟨file, hfile, hshort, -⟩ := hopens
  obtain ⟨hmem, -⟩ := searchByFid_mem hfile
  obtain ⟨hinternal, hflash⟩ := flash_of_short file hmem hshort
  have hset : ∀ s, ((respond card ef r s).2 (file.fid.value ef)).isSome := by
    intro s
    rw [respond_put hput hfile (granted_of_short hshort r.access)]
    simp [FileEntry.put, hflash]
  intro h
  have hsome := final_of_mem (P := fun s => (s (file.fid.value ef)).isSome)
    (fun r s => respond_isSome r s (file.fid.value ef)) hr hset (fun _ => none)
  rw [h.1 _ file hmem hinternal] at hsome
  simp at hsome

/-- A run that reads a secret open row, and writes to none, tells its contents. -/
theorem not_isolated_of_read {run : List Request} {r : Request} (hr : r ∈ run)
    (hopens : r.OpensShort ef) (hread : r.access = .read)
    (hputs : ∀ r ∈ run, r.OpensShort ef → r.access = .read) : ¬ Isolated card ef run := by
  obtain ⟨file, hfile, hshort, hif⟩ := hopens
  have hsecret := hif hread
  obtain ⟨hmem, -⟩ := searchByFid_mem hfile
  obtain ⟨-, hflash⟩ := flash_of_short file hmem hshort
  let store (data : Bytes) : Store :=
    Function.update (fun _ => none) (file.fid.value ef) (some data)
  have hsame : SameButSecrets ef (store []) (store [0]) := by
    refine ⟨fun fid => ?_, fun fid hfid => ?_⟩
    · by_cases heq : fid = file.fid.value ef
      · subst heq; simp [store]
      · simp [store, heq]
    · have hne : fid ≠ file.fid.value ef := by
        intro heq
        cases hrow : file.fid with
        | num n => rw [hrow] at hsecret; simp [Fid.isSecret] at hsecret
        | ef e =>
          rw [hrow] at hsecret heq
          exact hfid e hsecret heq.symm
      simp [store, hne]
  have hfixed : ∀ r ∈ run, ∀ s, (respond card ef r s).2 = s := by
    intro r hr s
    by_cases hopens : r.OpensShort ef
    · have hread' := hputs r hr hopens
      obtain ⟨file', hfile', hshort', -⟩ := hopens
      rw [respond_read hread' hfile' (granted_of_short hshort' r.access)]
    · exact respond_fixed hopens s
  intro h
  have houtputs := h.2 _ _ hsame
  rw [outputs_of_fixed hfixed, outputs_of_fixed hfixed] at houtputs
  have hresponse := List.map_inj_left.1 houtputs r hr
  have hgranted := granted_of_short hshort r.access
  rw [respond_read hread hfile hgranted, respond_read hread hfile hgranted] at hresponse
  simp [FileEntry.contents, hflash, store] at hresponse

/-- The isolation of a run, exactly: no request opens a row with the access bytes
`{ 0xff }`, to write it or to read a secret out of it. -/
theorem isolated_iff (hef : Function.Injective ef) (hparse : ParsesPublic card ef)
    (run : List Request) : Isolated card ef run ↔ ∀ r ∈ run, ¬ r.OpensShort ef := by
  constructor
  · intro h r hr hopens
    by_cases hput : ∃ r ∈ run, r.OpensShort ef ∧ r.access ≠ .read
    · obtain ⟨r', hr', hopens', haccess⟩ := hput
      exact not_isolated_of_put hr' hopens' haccess h
    · have hreads : ∀ r ∈ run, r.OpensShort ef → r.access = .read := fun r hr hopens =>
        not_not.1 fun haccess => hput ⟨r, hr, hopens, haccess⟩
      exact not_isolated_of_read hr hopens (hreads r hr hopens) hreads h
  · exact isolated_of_away hef hparse

section Runs

set_option maxRecDepth 4096

/-- Reading the name of the card holder and overwriting the signature key. -/
theorem isolated_name_and_key : Isolated blankCard efNumber
    [⟨.read, efNumber .chName, []⟩, ⟨.update, efNumber .pkSig, [0x00]⟩] := by
  apply (isolated_iff efNumber_injective (fun _ _ _ _ _ => rfl) _).2
  have hname : searchByFid efNumber (efNumber .chName) =
      some ⟨.ef .chName, none, .workingEf, .flash, aclRWp⟩ := by decide
  have hkey : searchByFid efNumber (efNumber .pkSig) =
      some ⟨.ef .pkSig, none, .internalEf, .flash, aclWp⟩ := by decide
  rintro r hr ⟨file, hfile, hshort, -⟩
  simp only [List.mem_cons, List.not_mem_nil, or_false] at hr
  rcases hr with rfl | rfl
  · obtain rfl := Option.some.inj (hname.symm.trans hfile)
    exact absurd hshort (by decide)
  · obtain rfl := Option.some.inj (hkey.symm.trans hfile)
    exact absurd hshort (by decide)

/-- One read of the device key tells it. -/
theorem device_key_readable : Function.Injective efNumber ∧ ParsesPublic blankCard efNumber ∧
    ¬ Isolated blankCard efNumber [⟨.read, efNumber .keyDev, []⟩] := by
  refine ⟨efNumber_injective, fun _ _ _ _ _ => rfl, ?_⟩
  have hkey : searchByFid efNumber (efNumber .keyDev) =
      some ⟨.ef .keyDev, none, .internalEf, .flash, aclShort⟩ := by decide
  apply not_isolated_of_read (List.mem_singleton_self _) ⟨_, hkey, rfl, fun _ => rfl⟩ rfl
  intro r hr _
  rw [List.mem_singleton.1 hr]

end Runs

end PicoFido2.Fido2
