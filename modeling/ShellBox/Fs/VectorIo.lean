import ShellBox.Logic.LittleEndian

/-!
# Reads and writes with several buffers

`readv`, `writev`, `preadv` and `pwritev` go through one buffer of the kernel that is as long as
the buffers of the guest together. They call the file once, and scatter what was read or gather
what is to be written. `readv` scatters the whole kernel buffer, however much of it was read; the
lengths of the buffers are cut down to 32 bits.

The call is compared with one read or write of the whole length.
-/

namespace ShellBox

/-- The memory of the guest as `user_read` and `user_write` see it: a byte for each address, and
which pages can be read and written. -/
structure GuestBytes where
  byte : ℕ → UInt8
  readable : ℕ → Bool
  writable : ℕ → Bool

namespace GuestBytes

def put (m : GuestBytes) (a : ℕ) (b : UInt8) : GuestBytes :=
  { m with byte := Function.update m.byte a b }

/-- `user_write`, which stores everything up to the first page it cannot write to. -/
def userWrite (m : GuestBytes) : ℕ → List UInt8 → GuestBytes × Bool
  | _, []      => (m, true)
  | a, b :: bs =>
    if m.writable (a / 4096) then (m.put a b).userWrite ((a + 1) % 2 ^ 64) bs else (m, false)

def userRead (m : GuestBytes) : ℕ → ℕ → Option (List UInt8)
  | _, 0     => some []
  | a, n + 1 =>
    if m.readable (a / 4096) then (m.userRead ((a + 1) % 2 ^ 64) n).map (m.byte a :: ·) else none

end GuestBytes

/-- `struct iovec_`, and `struct iovec64_` of the guest. -/
structure Iovec where
  base : ℕ
  len : ℕ
  deriving DecidableEq, Repr

def iovecs64 : ℕ → List UInt8 → List Iovec
  | 0, _         => []
  | n + 1, bytes => ⟨wordLE (bytes.take 8), wordLE ((bytes.drop 8).take 8)⟩ ::
      iovecs64 n (bytes.drop 16)

def guestIovecs (m : GuestBytes) (addr count : ℕ) : Option (List Iovec) :=
  (m.userRead addr (16 * count)).map (iovecs64 count)

/-- The length of the iovec as a `uint_t`. -/
def Iovec.short (v : Iovec) : Iovec := { v with len := v.len % 2 ^ 32 }

def readIovec (m : GuestBytes) (addr count : ℕ) : Option (List Iovec) :=
  (guestIovecs m addr count).map (List.map Iovec.short)

def iovecSize (vs : List Iovec) : ℕ := (vs.map Iovec.len).sum

/-- What is done with the file: `sys_read_buf` and `sys_write_buf`, or the part of the positioned
calls that holds the lock. -/
inductive FileCall
  | read (size : ℕ)
  | pread (size off : ℕ)
  | write (data : List UInt8)
  | pwrite (data : List UInt8) (off : ℕ)
  deriving DecidableEq

def FileCall.size : FileCall → ℕ
  | read size     => size
  | pread size _  => size
  | write data    => data.length
  | pwrite data _ => data.length

structure VecFile where
  isOpen : Bool
  answer : FileCall → Except ℤ ℕ
  errno : ∀ c err, answer c = .error err → -4095 ≤ err ∧ err < 0
  count : ∀ c n, answer c = .ok n → n ≤ c.size

namespace VecFile

def eBadf : ℤ := -9
def eFault : ℤ := -14

end VecFile

/-- What the guest has in `x0` after a call that returns a `dword_t`. -/
def guestRet (res : ℤ) : ℤ :=
  if 2 ^ 32 - 4095 ≤ res % 2 ^ 32 then res % 2 ^ 32 - 2 ^ 32 else res % 2 ^ 32

/-- The calls made to the file, the memory behind the call, and what the guest has returned. -/
structure VecDone where
  calls : List FileCall
  mem : GuestBytes
  ret : ℤ

namespace GuestBytes

/-- The loop of `sys_readv` over the kernel buffer. -/
def scatter (m : GuestBytes) : List Iovec → List UInt8 → GuestBytes × Bool
  | [], _        => (m, true)
  | v :: vs, buf =>
    match m.userWrite v.base (buf.take v.len) with
    | (m, true)  => m.scatter vs (buf.drop v.len)
    | (m, false) => (m, false)

/-- The loop of `sys_preadv`, which stops when nothing remains. -/
def scatterChunks (m : GuestBytes) : List Iovec → List UInt8 → ℕ → GuestBytes × Bool
  | [], _, _                => (m, true)
  | v :: vs, buf, remaining =>
    if remaining = 0 then (m, true)
    else
      let chunk := if v.len < remaining then v.len else remaining
      match m.userWrite v.base (buf.take chunk) with
      | (m, true)  => m.scatterChunks vs (buf.drop chunk) (remaining - chunk)
      | (m, false) => (m, false)

/-- The loop of `sys_writev` and `sys_pwritev`. -/
def gather (m : GuestBytes) : List Iovec → Option (List UInt8)
  | []      => some []
  | v :: vs => (m.userRead v.base v.len).bind fun data => (m.gather vs).map (data ++ ·)

end GuestBytes

/-- A kernel buffer. What the file has not filled in is whatever was there before. -/
def kernelBuf (buf : ℕ → UInt8) (n : ℕ) : List UInt8 := (List.range n).map buf

/-- The offset of `sys_preadv` and `sys_pwritev` in two words. -/
def posOff (posL posH : BitVec 32) : ℕ := posH.toNat * 2 ^ 32 + posL.toNat

def VecDone.failed (m : GuestBytes) (err : ℤ) : VecDone := ⟨[], m, guestRet err⟩

section Calls

variable (f : VecFile) (buf : ℕ → UInt8) (m : GuestBytes) (addr count : ℕ)

def sysReadv : VecDone :=
  match readIovec m addr count with
  | none    => .failed m VecFile.eFault
  | some vs =>
    match f.answer (.read (iovecSize vs)) with
    | .error err => ⟨[.read (iovecSize vs)], m, guestRet err⟩
    | .ok res    =>
      match m.scatter vs (kernelBuf buf (iovecSize vs)) with
      | (m, true)  => ⟨[.read (iovecSize vs)], m, guestRet res⟩
      | (m, false) => ⟨[.read (iovecSize vs)], m, guestRet VecFile.eFault⟩

def sysPreadv (posL posH : BitVec 32) : VecDone :=
  if f.isOpen = false then .failed m VecFile.eBadf
  else
    match readIovec m addr count with
    | none    => .failed m VecFile.eFault
    | some vs =>
      match f.answer (.pread (iovecSize vs) (posOff posL posH)) with
      | .error err => ⟨[.pread (iovecSize vs) (posOff posL posH)], m, guestRet err⟩
      | .ok res    =>
        match m.scatterChunks vs (kernelBuf buf (iovecSize vs)) res with
        | (m, true)  => ⟨[.pread (iovecSize vs) (posOff posL posH)], m, guestRet res⟩
        | (m, false) =>
          ⟨[.pread (iovecSize vs) (posOff posL posH)], m, guestRet VecFile.eFault⟩

def VecFile.result (f : VecFile) (c : FileCall) : ℤ :=
  match f.answer c with
  | .error err => err
  | .ok n      => n

def sysWritev : VecDone :=
  match readIovec m addr count with
  | none    => .failed m VecFile.eFault
  | some vs =>
    match m.gather vs with
    | none      => .failed m VecFile.eFault
    | some data => ⟨[.write data], m, guestRet (f.result (.write data))⟩

def sysPwritev (posL posH : BitVec 32) : VecDone :=
  if f.isOpen = false then .failed m VecFile.eBadf
  else
    match readIovec m addr count with
    | none    => .failed m VecFile.eFault
    | some vs =>
      match m.gather vs with
      | none      => .failed m VecFile.eFault
      | some data =>
        ⟨[.pwrite data (posOff posL posH)], m,
          guestRet (f.result (.pwrite data (posOff posL posH)))⟩

end Calls

inductive VecCall
  | readv | writev
  | preadv (posL posH : BitVec 32)
  | pwritev (posL posH : BitVec 32)

def VecCall.run (c : VecCall) (f : VecFile) (buf : ℕ → UInt8) (m : GuestBytes) (addr count : ℕ) :
    VecDone :=
  match c with
  | readv             => sysReadv f buf m addr count
  | writev            => sysWritev f m addr count
  | preadv posL posH  => sysPreadv f buf m addr count posL posH
  | pwritev posL posH => sysPwritev f m addr count posL posH

/-! ### One buffer after the other -/

/-- The addresses of `n` bytes in a row. -/
def addrs (a : ℕ) : ℕ → List ℕ
  | 0     => []
  | n + 1 => a :: addrs ((a + 1) % 2 ^ 64) n

def places (vs : List Iovec) : List ℕ := vs.flatMap fun v => addrs v.base v.len

namespace GuestBytes

def storeAt (m : GuestBytes) : List (ℕ × UInt8) → GuestBytes × Bool
  | []      => (m, true)
  | p :: ps => if m.writable (p.1 / 4096) then (m.put p.1 p.2).storeAt ps else (m, false)

end GuestBytes

/-- One call of the file that reads the whole length. The bytes it has read go to the buffers in
order, and nothing else does. -/
def idealRead (f : VecFile) (buf : ℕ → UInt8) (m : GuestBytes) (vs : List Iovec)
    (call : ℕ → FileCall) : VecDone :=
  match f.answer (call (iovecSize vs)) with
  | .error err => ⟨[call (iovecSize vs)], m, err⟩
  | .ok n      =>
    match m.storeAt (((places vs).take n).zip (kernelBuf buf n)) with
    | (m, true)  => ⟨[call (iovecSize vs)], m, n⟩
    | (m, false) => ⟨[call (iovecSize vs)], m, VecFile.eFault⟩

/-- One call of the file that writes what is in the buffers, if they can be read. -/
def idealWrite (f : VecFile) (m : GuestBytes) (vs : List Iovec) (call : List UInt8 → FileCall) :
    VecDone :=
  if ∀ a ∈ places vs, m.readable (a / 4096) = true then
    ⟨[call ((places vs).map m.byte)], m, f.result (call ((places vs).map m.byte))⟩
  else ⟨[], m, VecFile.eFault⟩

namespace VecCall

def positioned : VecCall → Bool
  | readv | writev         => false
  | preadv _ _ | pwritev _ _ => true

def ideal (c : VecCall) (f : VecFile) (buf : ℕ → UInt8) (m : GuestBytes) (vs : List Iovec) :
    VecDone :=
  match c with
  | readv             => idealRead f buf m vs .read
  | preadv posL posH  => idealRead f buf m vs (.pread · (posOff posL posH))
  | writev            => idealWrite f m vs .write
  | pwritev posL posH => idealWrite f m vs (.pwrite · (posOff posL posH))

def spec (c : VecCall) (f : VecFile) (buf : ℕ → UInt8) (m : GuestBytes) (addr count : ℕ) :
    VecDone :=
  if c.positioned = true ∧ f.isOpen = false then ⟨[], m, VecFile.eBadf⟩
  else
    match guestIovecs m addr count with
    | none    => ⟨[], m, VecFile.eFault⟩
    | some vs => c.ideal f buf m vs

end VecCall

end ShellBox
