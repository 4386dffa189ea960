import Veil.Primitives.Transaction

/-!
# Reading and building scripts (`script/script.h`, `script/script.cpp`)

`GetScriptOp` reads one instruction from the front of a script: the opcode and, for a push
(`opcode ≤ OP_PUSHDATA4`), the length (in the opcode itself or in the one, two or four bytes of
`OP_PUSHDATA1`, `OP_PUSHDATA2` and `OP_PUSHDATA4`) and the data; it fails where the script ends
inside the instruction.  `CScript::GetSigOpCount` walks the script with it while `pc < end()`,
counting one for `OP_CHECKSIG` and `OP_CHECKSIGVERIFY` and, unless the count is accurate and an
`OP_n` precedes it, `MAX_PUBKEYS_PER_MULTISIG` for `OP_CHECKMULTISIG(VERIFY)`; it stops at the first
instruction it cannot read.  Every instruction takes at least one byte (`getScriptOp_length_lt`),
which is the termination measure of the walk.

`CScript() << n` pushes `OP_0`, `OP_1NEGATE` or `OP_1` … `OP_16` as one opcode and any other
number as the data `CScriptNum::serialize` gives; a vector is pushed behind the shortest length
prefix.
-/

namespace Veil

def OP_PUSHDATA1 : UInt8 := 0x4c
def OP_PUSHDATA2 : UInt8 := 0x4d
def OP_PUSHDATA4 : UInt8 := 0x4e
def OP_1NEGATE : UInt8 := 0x4f
def OP_1 : UInt8 := 0x51
def OP_16 : UInt8 := 0x60
def OP_CHECKSIGVERIFY : UInt8 := 0xad
def OP_CHECKMULTISIG : UInt8 := 0xae
def OP_CHECKMULTISIGVERIFY : UInt8 := 0xaf
def OP_INVALIDOPCODE : UInt8 := 0xff

/-- `MAX_PUBKEYS_PER_MULTISIG`. -/
def MAX_PUBKEYS_PER_MULTISIG : Nat := 20

/-- `ReadLE16` and `ReadLE32`: bytes read little-endian. -/
def readLE (bytes : List UInt8) : Nat := Nat.ofDigits 256 (bytes.map UInt8.toNat)

/-- The length of the data a push opcode announces, and the bytes after the length prefix. -/
def pushSize (opcode : UInt8) (pc : List UInt8) : Option (Nat × List UInt8) :=
  if opcode < OP_PUSHDATA1 then some (opcode.toNat, pc)
  else if opcode = OP_PUSHDATA1 then
    match pc with
    | b :: pc => some (b.toNat, pc)
    | [] => none
  else if opcode = OP_PUSHDATA2 then
    if pc.length < 2 then none else some (readLE (pc.take 2), pc.drop 2)
  else if pc.length < 4 then none else some (readLE (pc.take 4), pc.drop 4)

/-- `GetScriptOp`: the opcode at the front of the script, the data it pushes (none for an
opcode that is not a push) and the rest of the script. -/
def getScriptOp : List UInt8 → Option (UInt8 × List UInt8 × List UInt8)
  | [] => none
  | opcode :: pc =>
    if opcode ≤ OP_PUSHDATA4 then
      match pushSize opcode pc with
      | none => none
      | some (nSize, pc) =>
        if pc.length < nSize then none else some (opcode, pc.take nSize, pc.drop nSize)
    else some (opcode, [], pc)

theorem pushSize_length_le {opcode : UInt8} {pc rest : List UInt8} {nSize : Nat}
    (h : pushSize opcode pc = some (nSize, rest)) : rest.length ≤ pc.length := by
  unfold pushSize at h
  split at h
  · cases h; exact le_rfl
  split at h
  · split at h
    · cases h; simp
    · cases h
  split at h
  · split at h
    · cases h
    · cases h; simp
  · split at h
    · cases h
    · cases h; simp

/-- Every instruction `GetScriptOp` reads takes at least one byte. -/
theorem getScriptOp_length_lt {pc rest data : List UInt8} {opcode : UInt8}
    (h : getScriptOp pc = some (opcode, data, rest)) : rest.length < pc.length := by
  cases pc with
  | nil => simp [getScriptOp] at h
  | cons op pc =>
    simp only [getScriptOp] at h
    split at h
    · -- a push: the length prefix, then the data
      cases hsize : pushSize op pc with
      | none => simp [hsize] at h
      | some r =>
        obtain ⟨nSize, pc'⟩ := r
        have hle := pushSize_length_le hsize
        by_cases hlt : pc'.length < nSize
        · simp [hsize, hlt] at h
        · simp only [hsize, hlt, if_false, Option.some.injEq, Prod.mk.injEq] at h
          rw [← h.2.2, List.length_drop, List.length_cons]
          omega
    · cases h
      simp

/-- `DecodeOP_N` of `OP_1` … `OP_16`. -/
def decodeOP_N (opcode : UInt8) : Nat := opcode.toNat - (OP_1.toNat - 1)

/-- The loop of `CScript::GetSigOpCount(fAccurate)`: from `pc`, with the last opcode read and the
count so far. -/
def getSigOpCountLoop (fAccurate : Bool) (pc : List UInt8) (lastOpcode : UInt8) (n : Nat) : Nat :=
  match _h : getScriptOp pc with
  | none => n
  | some (opcode, _, rest) =>
    let n :=
      if opcode = OP_CHECKSIG || opcode = OP_CHECKSIGVERIFY then n + 1
      else if opcode = OP_CHECKMULTISIG || opcode = OP_CHECKMULTISIGVERIFY then
        if fAccurate && OP_1 ≤ lastOpcode && lastOpcode ≤ OP_16 then n + decodeOP_N lastOpcode
        else n + MAX_PUBKEYS_PER_MULTISIG
      else n
    getSigOpCountLoop fAccurate rest opcode n
termination_by pc.length
decreasing_by exact getScriptOp_length_lt _h

/-- `CScript::GetSigOpCount(fAccurate)`. -/
def getSigOpCount (script : CScript) (fAccurate : Bool) : Nat :=
  getSigOpCountLoop fAccurate script OP_INVALIDOPCODE 0

/-- `CScriptNum::serialize`: the absolute value little-endian, the sign in the top bit of a last
byte (a byte of its own where the top bit is taken). -/
def scriptNumSerialize (value : Int) : List UInt8 :=
  if value = 0 then []
  else
    let neg := decide (value < 0)
    let result := (Nat.digits 256 value.natAbs).map UInt8.ofNat
    match result.getLast? with
    | none => []
    | some last =>
      if last &&& 0x80 ≠ 0 then result ++ [if neg then 0x80 else 0]
      else if neg then result.dropLast ++ [last ||| 0x80]
      else result

/-- `CScript::operator<<(const std::vector<unsigned char>&)`: the data behind its length. -/
def pushData (b : List UInt8) : CScript :=
  (if b.length < OP_PUSHDATA1.toNat then [UInt8.ofNat b.length]
   else if b.length ≤ 0xff then [OP_PUSHDATA1, UInt8.ofNat b.length]
   else if b.length ≤ 0xffff then OP_PUSHDATA2 :: serWriteData16 (UInt16.ofNat b.length)
   else OP_PUSHDATA4 :: serWriteData32 (UInt32.ofNat b.length)) ++ b

/-- `CScript::push_int64`, the script `CScript() << n`. -/
def pushInt64 (n : Int) : CScript :=
  if n = -1 ∨ (1 ≤ n ∧ n ≤ 16) then [UInt8.ofNat (n + (OP_1.toNat - 1)).toNat]
  else if n = 0 then [OP_0]
  else pushData (scriptNumSerialize n)

example : pushInt64 2 = [0x52] ∧ pushInt64 0 = [OP_0] := by decide

end Veil
