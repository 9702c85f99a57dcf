import Mathlib.Data.Fin.Basic
import Mathlib.Data.Nat.Notation
import Mathlib.Tactic.Common

/-! The file table of `files.c`: for every file its identifier, its type, where its
contents come from and its access bytes. The values of the `EF_` constants are
elsewhere, so a row has the constant. -/

namespace PicoFido2.Fido2

abbrev Bytes := List (BitVec 8)

/-! ### Access bytes -/

abbrev Acl := Vector (BitVec 8) 7

/-- An array initialised from a brace list: the bytes the list leaves out are zero. -/
def initializer (bytes : Bytes) : Acl := Vector.ofFn fun i => bytes.getD i 0

def aclNone : Acl := initializer [0xff, 0xff, 0xff, 0xff, 0xff, 0xff, 0xff]

def aclRo : Acl := initializer [0xff, 0xff, 0xff, 0xff, 0xff, 0xff, 0x00]

def aclRWp : Acl := initializer [0xff, 0xff, 0xff, 0xff, 0x90, 0x90, 0x00]

def aclWp : Acl := initializer [0xff, 0xff, 0xff, 0xff, 0x90, 0x90, 0xff]

/-- The brace list `{ 0xff }` of the rows that come from the other application. -/
def aclShort : Acl := initializer [0xff]

/-! ### Rows -/

/-- The `EF_` constants. -/
inductive Ef where
  | fullAid | chName | loginData | langPref | sex | uriUrl | histBytes | chData | secTpl | chCert
  | exlenInfo | gfm | sigCount | extCap | algoSig | algoDec | algoAut | pwStatus | fp | fpSig
  | fpDec | fpAut | caFp | fpCa1 | fpCa2 | fpCa3 | tsAll | tsSig | tsDec | tsAut | resetCode
  | uifSig | uifDec | uifAut | keyInfo | algoInfo | appData | discreteDo | pw1 | rc | pw3
  | algoPriv1 | algoPriv2 | algoPriv3 | pkSig | pkDec | pkAut | pbSig | pbDec | pbAut | pwPriv
  | dek | kdf | ch1 | ch2 | ch3 | pivAdminData | pivAttestation | pivMscmap | pivMsroots1
  | pivMsroots2 | pivMsroots3 | pivMsroots4 | pivMsroots5 | pivKeyAuthentication | pivKeyCardmgm
  | pivKeySignature | pivKeyKeymgm | pivKeyCardauth | pivKeyRetired1 | pivKeyRetired2
  | pivKeyRetired3 | pivKeyRetired4 | pivKeyRetired5 | pivKeyRetired6 | pivKeyRetired7
  | pivKeyRetired8 | pivKeyRetired9 | pivKeyRetired10 | pivKeyRetired11 | pivKeyRetired12
  | pivKeyRetired13 | pivKeyRetired14 | pivKeyRetired15 | pivKeyRetired16 | pivKeyRetired17
  | pivKeyRetired18 | pivKeyRetired19 | pivKeyRetired20 | pivKeyAttestation | pivCapability
  | pivChuid | pivAuthentication | pivFingerprints | pivSecurity | pivFacial | pivPrinted
  | pivSignature | pivKeyManagement | pivCardAuth | pivDiscovery | pivKeyHistory | pivIris
  | pivBitgt | pivSmSigner | pivPcRefData | pivRetired1 | pivRetired2 | pivRetired3 | pivRetired4
  | pivRetired5 | pivRetired6 | pivRetired7 | pivRetired8 | pivRetired9 | pivRetired10
  | pivRetired11 | pivRetired12 | pivRetired13 | pivRetired14 | pivRetired15 | pivRetired16
  | pivRetired17 | pivRetired18 | pivRetired19 | pivRetired20 | pivPin | pivPuk | efMeta
  | pwRetries | keyDev | keyDevEnc | mkek | eeDev | eeDevEa | counter | pin | authtoken
  | pauthtoken | minpinlen | opts | largeblob | otpPin
  deriving DecidableEq, Repr

inductive Fid where
  | num (fid : BitVec 16)
  | ef (e : Ef)
  deriving DecidableEq, Repr

/-- The number of a row, for the values of the constants. -/
def Fid.value (ef : Ef → BitVec 16) : Fid → BitVec 16
  | num fid => fid
  | .ef e => ef e

inductive FileType where
  | df | workingEf | internalEf | notKnown
  deriving DecidableEq, Repr

/-- The functions that make the contents of a `FILE_DATA_FUNC` row. -/
inductive Handler where
  | parseChData | parseSecTpl | parseChCert | parseAlgoinfo | parsePwStatus | parseFp | parseCafp
  | parseTs | parseKeyinfo | parseAppData | parseDiscreteDo | pivParseDiscovery
  deriving DecidableEq, Repr

inductive FileData where
  | null
  | flash
  | func (handler : Handler)
  | openpgpAidFull
  | bytes (data : Bytes)
  deriving DecidableEq, Repr

/-- The application identifiers that stand as names. -/
inductive Aid where
  | openpgpAid | openpgpAidFull
  deriving DecidableEq, Repr

structure FileEntry where
  fid : Fid
  name : Option Aid
  type : FileType
  data : FileData
  acl : Acl
  deriving DecidableEq, Repr

def historicalBytes : Bytes := [10, 0, 0x00, 0x31, 0x84, 0x73, 0x80, 0x01, 0xc0, 0x05, 0x90, 0x00]

def extendedCapabilities : Bytes := [10, 0, 0x77, 0, 0x00, 128, 0x08, 0x00, 0x00, 0xff, 0x00, 0x1]

def featureMngmnt : Bytes := [3, 0, 0x81, 0x01, 0x20]

def exlenInfo : Bytes := [8, 0, 0x2, 0x2, 0x07, 0xff, 0x2, 0x2, 0x08, 0x00]

/-- The last row ends the table. -/
def fileEntries : List FileEntry :=
  [ ⟨.num 0x3f00, none, .df, .null, aclNone⟩,
    ⟨.ef .fullAid, some .openpgpAidFull, .workingEf, .openpgpAidFull, aclRo⟩,
    ⟨.ef .chName, none, .workingEf, .flash, aclRWp⟩,
    ⟨.ef .loginData, none, .workingEf, .flash, aclRWp⟩,
    ⟨.ef .langPref, none, .workingEf, .flash, aclRWp⟩,
    ⟨.ef .sex, none, .workingEf, .flash, aclRWp⟩,
    ⟨.ef .uriUrl, none, .workingEf, .flash, aclRWp⟩,
    ⟨.ef .histBytes, none, .workingEf, .bytes historicalBytes, aclRo⟩,
    ⟨.ef .chData, none, .workingEf, .func .parseChData, aclRo⟩,
    ⟨.ef .secTpl, none, .workingEf, .func .parseSecTpl, aclRo⟩,
    ⟨.ef .chCert, none, .workingEf, .func .parseChCert, aclRo⟩,
    ⟨.ef .exlenInfo, none, .workingEf, .bytes exlenInfo, aclRo⟩,
    ⟨.ef .gfm, none, .workingEf, .bytes featureMngmnt, aclRo⟩,
    ⟨.ef .sigCount, none, .workingEf, .flash, aclRo⟩,
    ⟨.ef .extCap, none, .workingEf, .bytes extendedCapabilities, aclRo⟩,
    ⟨.ef .algoSig, none, .workingEf, .func .parseAlgoinfo, aclRWp⟩,
    ⟨.ef .algoDec, none, .workingEf, .func .parseAlgoinfo, aclRWp⟩,
    ⟨.ef .algoAut, none, .workingEf, .func .parseAlgoinfo, aclRWp⟩,
    ⟨.ef .pwStatus, none, .workingEf, .func .parsePwStatus, aclRWp⟩,
    ⟨.ef .fp, none, .workingEf, .func .parseFp, aclRo⟩,
    ⟨.ef .fpSig, none, .workingEf, .flash, aclRWp⟩,
    ⟨.ef .fpDec, none, .workingEf, .flash, aclRWp⟩,
    ⟨.ef .fpAut, none, .workingEf, .flash, aclRWp⟩,
    ⟨.ef .caFp, none, .workingEf, .func .parseCafp, aclRo⟩,
    ⟨.ef .fpCa1, none, .workingEf, .flash, aclRWp⟩,
    ⟨.ef .fpCa2, none, .workingEf, .flash, aclRWp⟩,
    ⟨.ef .fpCa3, none, .workingEf, .flash, aclRWp⟩,
    ⟨.ef .tsAll, none, .workingEf, .func .parseTs, aclRo⟩,
    ⟨.ef .tsSig, none, .workingEf, .flash, aclRWp⟩,
    ⟨.ef .tsDec, none, .workingEf, .flash, aclRWp⟩,
    ⟨.ef .tsAut, none, .workingEf, .flash, aclRWp⟩,
    ⟨.ef .resetCode, none, .workingEf, .flash, aclWp⟩,
    ⟨.ef .uifSig, none, .workingEf, .flash, aclRWp⟩,
    ⟨.ef .uifDec, none, .workingEf, .flash, aclRWp⟩,
    ⟨.ef .uifAut, none, .workingEf, .flash, aclRWp⟩,
    ⟨.ef .keyInfo, none, .workingEf, .func .parseKeyinfo, aclRo⟩,
    ⟨.ef .algoInfo, none, .workingEf, .func .parseAlgoinfo, aclRo⟩,
    ⟨.ef .appData, none, .workingEf, .func .parseAppData, aclRo⟩,
    ⟨.ef .discreteDo, none, .workingEf, .func .parseDiscreteDo, aclRo⟩,
    ⟨.ef .pw1, none, .internalEf, .flash, aclWp⟩,
    ⟨.ef .rc, none, .internalEf, .flash, aclWp⟩,
    ⟨.ef .pw3, none, .internalEf, .flash, aclWp⟩,
    ⟨.ef .algoPriv1, none, .internalEf, .flash, aclRWp⟩,
    ⟨.ef .algoPriv2, none, .internalEf, .flash, aclRWp⟩,
    ⟨.ef .algoPriv3, none, .internalEf, .flash, aclRWp⟩,
    ⟨.ef .pkSig, none, .internalEf, .flash, aclWp⟩,
    ⟨.ef .pkDec, none, .internalEf, .flash, aclWp⟩,
    ⟨.ef .pkAut, none, .internalEf, .flash, aclWp⟩,
    ⟨.ef .pbSig, none, .internalEf, .flash, aclRWp⟩,
    ⟨.ef .pbDec, none, .internalEf, .flash, aclRWp⟩,
    ⟨.ef .pbAut, none, .internalEf, .flash, aclRWp⟩,
    ⟨.ef .pwPriv, none, .internalEf, .flash, aclRWp⟩,
    ⟨.ef .dek, none, .internalEf, .flash, aclNone⟩,
    ⟨.ef .kdf, none, .workingEf, .flash, aclRWp⟩,
    ⟨.ef .ch1, none, .internalEf, .flash, aclNone⟩,
    ⟨.ef .ch2, none, .internalEf, .flash, aclNone⟩,
    ⟨.ef .ch3, none, .internalEf, .flash, aclNone⟩,
    ⟨.ef .pivAdminData, none, .internalEf, .flash, aclRWp⟩,
    ⟨.ef .pivAttestation, none, .internalEf, .flash, aclRWp⟩,
    ⟨.ef .pivMscmap, none, .internalEf, .flash, aclRWp⟩,
    ⟨.ef .pivMsroots1, none, .internalEf, .flash, aclRWp⟩,
    ⟨.ef .pivMsroots2, none, .internalEf, .flash, aclRWp⟩,
    ⟨.ef .pivMsroots3, none, .internalEf, .flash, aclRWp⟩,
    ⟨.ef .pivMsroots4, none, .internalEf, .flash, aclRWp⟩,
    ⟨.ef .pivMsroots5, none, .internalEf, .flash, aclRWp⟩,
    ⟨.ef .pivKeyAuthentication, none, .workingEf, .flash, aclWp⟩,
    ⟨.ef .pivKeyCardmgm, none, .workingEf, .flash, aclWp⟩,
    ⟨.ef .pivKeySignature, none, .workingEf, .flash, aclWp⟩,
    ⟨.ef .pivKeyKeymgm, none, .workingEf, .flash, aclWp⟩,
    ⟨.ef .pivKeyCardauth, none, .workingEf, .flash, aclWp⟩,
    ⟨.ef .pivKeyRetired1, none, .workingEf, .flash, aclWp⟩,
    ⟨.ef .pivKeyRetired2, none, .workingEf, .flash, aclWp⟩,
    ⟨.ef .pivKeyRetired3, none, .workingEf, .flash, aclWp⟩,
    ⟨.ef .pivKeyRetired4, none, .workingEf, .flash, aclWp⟩,
    ⟨.ef .pivKeyRetired5, none, .workingEf, .flash, aclWp⟩,
    ⟨.ef .pivKeyRetired6, none, .workingEf, .flash, aclWp⟩,
    ⟨.ef .pivKeyRetired7, none, .workingEf, .flash, aclWp⟩,
    ⟨.ef .pivKeyRetired8, none, .workingEf, .flash, aclWp⟩,
    ⟨.ef .pivKeyRetired9, none, .workingEf, .flash, aclWp⟩,
    ⟨.ef .pivKeyRetired10, none, .workingEf, .flash, aclWp⟩,
    ⟨.ef .pivKeyRetired11, none, .workingEf, .flash, aclWp⟩,
    ⟨.ef .pivKeyRetired12, none, .workingEf, .flash, aclWp⟩,
    ⟨.ef .pivKeyRetired12, none, .workingEf, .flash, aclWp⟩,
    ⟨.ef .pivKeyRetired13, none, .workingEf, .flash, aclWp⟩,
    ⟨.ef .pivKeyRetired14, none, .workingEf, .flash, aclWp⟩,
    ⟨.ef .pivKeyRetired15, none, .workingEf, .flash, aclWp⟩,
    ⟨.ef .pivKeyRetired16, none, .workingEf, .flash, aclWp⟩,
    ⟨.ef .pivKeyRetired17, none, .workingEf, .flash, aclWp⟩,
    ⟨.ef .pivKeyRetired18, none, .workingEf, .flash, aclWp⟩,
    ⟨.ef .pivKeyRetired19, none, .workingEf, .flash, aclWp⟩,
    ⟨.ef .pivKeyRetired20, none, .workingEf, .flash, aclWp⟩,
    ⟨.ef .pivKeyAttestation, none, .internalEf, .flash, aclWp⟩,
    ⟨.ef .pivCapability, none, .workingEf, .flash, aclRWp⟩,
    ⟨.ef .pivChuid, none, .workingEf, .flash, aclRWp⟩,
    ⟨.ef .pivAuthentication, none, .workingEf, .flash, aclRWp⟩,
    ⟨.ef .pivFingerprints, none, .workingEf, .flash, aclRWp⟩,
    ⟨.ef .pivSecurity, none, .workingEf, .flash, aclRWp⟩,
    ⟨.ef .pivFacial, none, .workingEf, .flash, aclRWp⟩,
    ⟨.ef .pivPrinted, none, .workingEf, .flash, aclRWp⟩,
    ⟨.ef .pivSignature, none, .workingEf, .flash, aclRWp⟩,
    ⟨.ef .pivKeyManagement, none, .workingEf, .flash, aclRWp⟩,
    ⟨.ef .pivCardAuth, none, .workingEf, .flash, aclRWp⟩,
    ⟨.ef .pivDiscovery, none, .workingEf, .func .pivParseDiscovery, aclRWp⟩,
    ⟨.ef .pivKeyHistory, none, .workingEf, .flash, aclRWp⟩,
    ⟨.ef .pivIris, none, .workingEf, .flash, aclRWp⟩,
    ⟨.ef .pivBitgt, none, .workingEf, .flash, aclRWp⟩,
    ⟨.ef .pivSmSigner, none, .workingEf, .flash, aclRWp⟩,
    ⟨.ef .pivPcRefData, none, .workingEf, .flash, aclRWp⟩,
    ⟨.ef .pivRetired1, none, .workingEf, .flash, aclRWp⟩,
    ⟨.ef .pivRetired2, none, .workingEf, .flash, aclRWp⟩,
    ⟨.ef .pivRetired3, none, .workingEf, .flash, aclRWp⟩,
    ⟨.ef .pivRetired4, none, .workingEf, .flash, aclRWp⟩,
    ⟨.ef .pivRetired5, none, .workingEf, .flash, aclRWp⟩,
    ⟨.ef .pivRetired6, none, .workingEf, .flash, aclRWp⟩,
    ⟨.ef .pivRetired7, none, .workingEf, .flash, aclRWp⟩,
    ⟨.ef .pivRetired8, none, .workingEf, .flash, aclRWp⟩,
    ⟨.ef .pivRetired9, none, .workingEf, .flash, aclRWp⟩,
    ⟨.ef .pivRetired10, none, .workingEf, .flash, aclRWp⟩,
    ⟨.ef .pivRetired11, none, .workingEf, .flash, aclRWp⟩,
    ⟨.ef .pivRetired12, none, .workingEf, .flash, aclRWp⟩,
    ⟨.ef .pivRetired13, none, .workingEf, .flash, aclRWp⟩,
    ⟨.ef .pivRetired14, none, .workingEf, .flash, aclRWp⟩,
    ⟨.ef .pivRetired15, none, .workingEf, .flash, aclRWp⟩,
    ⟨.ef .pivRetired16, none, .workingEf, .flash, aclRWp⟩,
    ⟨.ef .pivRetired17, none, .workingEf, .flash, aclRWp⟩,
    ⟨.ef .pivRetired18, none, .workingEf, .flash, aclRWp⟩,
    ⟨.ef .pivRetired19, none, .workingEf, .flash, aclRWp⟩,
    ⟨.ef .pivRetired20, none, .workingEf, .flash, aclRWp⟩,
    ⟨.ef .pivPin, none, .internalEf, .flash, aclWp⟩,
    ⟨.ef .pivPuk, none, .internalEf, .flash, aclWp⟩,
    ⟨.ef .efMeta, none, .internalEf, .flash, aclNone⟩,
    ⟨.ef .pwRetries, none, .internalEf, .flash, aclRWp⟩,
    ⟨.num 0x0000, some .openpgpAid, .workingEf, .null, aclRo⟩,
    ⟨.ef .keyDev, none, .internalEf, .flash, aclShort⟩,
    ⟨.ef .keyDevEnc, none, .internalEf, .flash, aclShort⟩,
    ⟨.ef .mkek, none, .internalEf, .flash, aclShort⟩,
    ⟨.ef .eeDev, none, .internalEf, .flash, aclShort⟩,
    ⟨.ef .eeDevEa, none, .internalEf, .flash, aclShort⟩,
    ⟨.ef .counter, none, .internalEf, .flash, aclShort⟩,
    ⟨.ef .pin, none, .internalEf, .flash, aclShort⟩,
    ⟨.ef .authtoken, none, .internalEf, .flash, aclShort⟩,
    ⟨.ef .pauthtoken, none, .internalEf, .flash, aclShort⟩,
    ⟨.ef .minpinlen, none, .internalEf, .flash, aclShort⟩,
    ⟨.ef .opts, none, .internalEf, .flash, aclShort⟩,
    ⟨.ef .largeblob, none, .internalEf, .flash, aclShort⟩,
    ⟨.ef .otpPin, none, .internalEf, .flash, aclShort⟩,
    ⟨.num 0x0000, none, .notKnown, .null, aclNone⟩ ]

end PicoFido2.Fido2
