import LittleComputer.Machine

/-!
Memory images: segments of words, each at its origin.  As a file an image is its words one after the
other, high byte first; origins are not recorded.
-/
namespace LittleComputer

/-- Consecutive words from `origin` on. -/
structure Segment where
  origin : Address
  words : List Word
deriving DecidableEq, Repr

structure Image where
  segments : List Segment
deriving DecidableEq, Repr

namespace Segment

/-- Whether an address holds a word of the segment.  Words past the end of memory have none. -/
def contains (segment : Segment) (address : Address) : Bool :=
  segment.origin.toNat ≤ address.toNat &&
    address.toNat - segment.origin.toNat < segment.words.length

def read? (segment : Segment) (address : Address) : Option Word :=
  if segment.contains address then segment.words[address.toNat - segment.origin.toNat]? else none

end Segment

def Word.ofBytes (high low : UInt8) : Word :=
  BitVec.ofNat 16 (256 * high.toNat + low.toNat)

/-- The bytes of a word, high byte first. -/
def Word.toBytes (word : Word) : List UInt8 :=
  [UInt8.ofNat (word.toNat / 256), UInt8.ofNat (word.toNat % 256)]

namespace Image

/-- The words of pairs of bytes, after those of `done` in reverse.  An odd byte at the end is
dropped. -/
def pairBytes (done : List Word) : List UInt8 → List Word
  | high :: low :: rest => pairBytes (Word.ofBytes high low :: done) rest
  | _ => done.reverse

/-- The image of a file loaded at `origin`. -/
def ofBytes (origin : Address) (bytes : List UInt8) : Except ImageError Image :=
  if bytes.length % 2 ≠ 0 then .error (.oddLength bytes.length)
  else
    let words := pairBytes [] bytes
    if memorySize < origin.toNat + words.length then .error (.overflow origin words.length)
    else .ok ⟨[⟨origin, words⟩]⟩

def words (image : Image) : List Word :=
  image.segments.flatMap Segment.words

def toBytes (image : Image) : List UInt8 :=
  image.words.flatMap Word.toBytes

def size (image : Image) : Nat :=
  image.words.length

/-- The word at an address, from the first segment that has one. -/
def read? (image : Image) (address : Address) : Option Word :=
  image.segments.findSome? fun segment => segment.read? address

def isMapped (image : Image) (address : Address) : Bool :=
  image.segments.any fun segment => segment.contains address

end Image

end LittleComputer
