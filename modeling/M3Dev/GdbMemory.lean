import M3Dev.HostCalls
import M3Dev.GdbText
import M3Dev.ByteBlock

/-! `write_memory`: bytes to any address, with word accesses only. -/
namespace M3Dev.Gdb
open CallTree Tools ByteBlock

/-- Read a word, put bytes over a part of it, write it back; `x` is the local variable. -/
def rewriteWord (x addr : Word) (offset : ℕ) (bs : List Byte) : HostProg Word := do
  let (_, x) ← swdpAhbRead addr x
  let x := patchWord x offset bs
  let _ ← swdpAhbWrite addr x
  return x

/-- What is left to write: the local variable, the address, the bytes. -/
abbrev Unwritten := Word × Word × List Byte

/-- Up to the next word boundary. -/
def writeHead (s : Unwritten) : HostProg Unwritten := do
  let (x, addr, data) := s
  if addr &&& 3 ≠ 0 then
    let offset := (addr &&& 3).toNat
    let count := min (4 - offset) data.length
    let x ← rewriteWord x (addr &&& ~~~3) offset (data.take count)
    return (x, addr + BitVec.ofNat 32 count, data.drop count)
  else return (x, addr, data)

/-- Whole words. -/
def writeWords (s : Unwritten) : HostProg Unwritten := do
  let (x, addr, data) := s
  if data.length > 3 then
    let count := 4 * (data.length / 4)
    let _ ← swdpAhbWrite32 addr (wordsAt data) (data.length / 4 : ℕ)
    return (x, addr + BitVec.ofNat 32 count, data.drop count)
  else return (x, addr, data)

/-- The beginning of a last word. -/
def writeTail (s : Unwritten) : HostProg Unit := do
  let (x, addr, data) := s
  if data.length > 0 then
    let _ ← rewriteWord x addr 0 data
    return ()

def writeMemory (x addr : Word) (data : List Byte) : HostProg Unit := do
  if data.length < 1 then return ()
  let s ← writeHead (x, addr, data)
  let s ← writeWords s
  writeTail s

end M3Dev.Gdb
