import Mathlib.Logic.Function.Basic
import PicoFido2.Fido2.FileTable
import PicoFido2.Machine.Unwinding

/-! Reads, writes and updates of a host that has verified no PIN. A request names a file
by its number; the first row with that number decides: its access byte for the request
is zero, or the request is denied. -/

namespace PicoFido2.Fido2

/-- What is in the flash for every file number, `none` where there is no data. -/
abbrev Store := BitVec 16 → Option Bytes

/-- The code and data of the card that are not in `files.c`. -/
structure Card where
  openpgpAidFull : Bytes
  parse : Handler → FileEntry → Store → Bytes

inductive Access where
  | write | update | read
  deriving DecidableEq, Repr

/-- The access byte that governs a request. -/
def Access.byte : Access → Fin 7
  | write => 4
  | update => 5
  | read => 6

/-- `data` is what a write or an update puts into the file. -/
structure Request where
  access : Access
  fid : BitVec 16
  data : Bytes
  deriving DecidableEq, Repr

inductive Response where
  | notFound
  | denied
  | done
  | contents (data : Option Bytes)
  deriving DecidableEq, Repr

/-- The byte `0x90` asks for a PIN and `0xff` allows nobody. -/
def Acl.granted (acl : Acl) (access : Access) : Bool := acl.get access.byte = 0x00

variable (card : Card) (ef : Ef → BitVec 16)

/-- The row of a file number, up to the row that ends the table; the number zero marks
rows that are not files. -/
def searchByFid (fid : BitVec 16) : Option FileEntry :=
  fileEntries.dropLast.find? fun file => file.fid.value ef ≠ 0 ∧ file.fid.value ef = fid

/-- What a granted read returns. -/
def FileEntry.contents (file : FileEntry) (s : Store) : Option Bytes :=
  match file.data with
  | .null => none
  | .flash => s (file.fid.value ef)
  | .func handler => some (card.parse handler file s)
  | .openpgpAidFull => some card.openpgpAidFull
  | .bytes data => some data

/-- Put data into a file that has its contents in the flash. -/
def FileEntry.put (file : FileEntry) (data : Bytes) (s : Store) : Store :=
  match file.data with
  | .flash => Function.update s (file.fid.value ef) (some data)
  | _ => s

def respond (r : Request) (s : Store) : Response × Store :=
  match searchByFid ef r.fid with
  | none => (.notFound, s)
  | some file =>
    if file.acl.granted r.access then
      match r.access with
      | .read => (.contents (file.contents card ef s), s)
      | .write | .update => (.done, file.put ef r.data s)
    else (.denied, s)

variable {card ef}

theorem searchByFid_mem {fid : BitVec 16} {file : FileEntry} (h : searchByFid ef fid = some file) :
    file ∈ fileEntries ∧ file.fid.value ef = fid := by
  have hfound := List.find?_some h
  simp only [decide_eq_true_eq] at hfound
  exact ⟨List.dropLast_subset _ (List.mem_of_find?_eq_some h), hfound.2⟩

/-- A request without a row, or whose row denies it, changes nothing. -/
theorem respond_denied {r : Request}
    (h : ∀ file, searchByFid ef r.fid = some file → file.acl.granted r.access = false) (s : Store) :
    (respond card ef r s).2 = s ∧ ∀ t, (respond card ef r t).1 = (respond card ef r s).1 := by
  unfold respond
  split
  · exact ⟨rfl, fun _ => rfl⟩
  · rename_i file hfile
    rw [h file hfile]
    exact ⟨rfl, fun _ => rfl⟩

theorem respond_read {r : Request} {file : FileEntry} (hread : r.access = .read)
    (hfile : searchByFid ef r.fid = some file) (hgranted : file.acl.granted r.access) (s : Store) :
    respond card ef r s = (.contents (file.contents card ef s), s) := by
  simp only [respond, hfile, hgranted, if_true]
  rw [hread]

theorem respond_put {r : Request} {file : FileEntry} (hput : r.access ≠ .read)
    (hfile : searchByFid ef r.fid = some file) (hgranted : file.acl.granted r.access) (s : Store) :
    respond card ef r s = (.done, file.put ef r.data s) := by
  simp only [respond, hfile, hgranted, if_true]
  cases haccess : r.access with
  | read => exact absurd haccess hput
  | write => rfl
  | update => rfl

theorem FileEntry.put_isSome (file : FileEntry) (data : Bytes) {s : Store} {fid : BitVec 16}
    (h : (s fid).isSome) : (file.put ef data s fid).isSome := by
  cases hdata : file.data with
  | flash =>
    simp only [put, hdata, Function.update_apply]
    split
    · rfl
    · exact h
  | _ => simpa only [put, hdata] using h

/-- No request takes the data out of a file. -/
theorem respond_isSome (r : Request) (s : Store) (fid : BitVec 16) (h : (s fid).isSome) :
    ((respond card ef r s).2 fid).isSome := by
  unfold respond
  split
  · exact h
  · rename_i file _
    split
    · split
      · exact h
      · exact file.put_isSome r.data h
      · exact file.put_isSome r.data h
    · exact h

/-! ### A numbering and a card -/

/-- The constants numbered in the order of the table. -/
def efNumber (e : Ef) : BitVec 16 := BitVec.ofNat 16 (e.ctorIdx + 1)

theorem efNumber_injective : Function.Injective efNumber := by
  have hlt : ∀ e : Ef, e.ctorIdx < 143 := by
    intro e
    cases e <;> decide
  intro e e' h
  have he := hlt e
  have he' := hlt e'
  have hidx : e.ctorIdx = e'.ctorIdx := by
    unfold efNumber at h
    bv_omega
  calc e = Ef.ofNat e.ctorIdx := (Ef.ofNat_ctorIdx e).symm
    _ = e' := by rw [hidx, Ef.ofNat_ctorIdx]

def blankCard : Card where
  openpgpAidFull := []
  parse _ _ _ := []

end PicoFido2.Fido2
