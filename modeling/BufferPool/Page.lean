import BufferPool.Bytes

/-! # Pages

A page is a block of exactly `Page.size` bytes, named by a 32-bit id. The
largest id is reserved and never names a page.
-/

namespace BufferPool

abbrev PageId := UInt32

/-- The reserved id, which no device hands out. -/
def PageId.invalid : PageId := 4294967295

def PageId.isValid (p : PageId) : Bool := p != invalid

def Page.size : Nat := 4096

structure Page where
  bytes : Bytes
  length_bytes : bytes.length = Page.size
  deriving DecidableEq

namespace Page

attribute [simp] length_bytes

theorem ext {d e : Page} (h : d.bytes = e.bytes) : d = e := by
  cases d; cases e; cases h; rfl

def zero : Page where
  bytes := List.replicate size 0
  length_bytes := by simp

/-- The first page's worth of `bs`, padded with zeros. -/
def ofStart (bs : Bytes) : Page where
  bytes := bs.resize size
  length_bytes := by simp

def ofBytes? (bs : Bytes) : Option Page :=
  if h : bs.length = size then some ⟨bs, h⟩ else none

/-- `new` written over the page from `offset` on. Bytes past the end of the page are dropped. -/
def write (d : Page) (offset : Nat) (new : Bytes) : Page where
  bytes := (d.bytes.overlay offset new).take size
  length_bytes := by
    simp only [List.length_take, Bytes.length_overlay, length_bytes]
    omega

@[simp] theorem ofBytes?_bytes (d : Page) : ofBytes? d.bytes = some d := by
  simp [ofBytes?]

theorem ofBytes?_eq_some_iff {bs : Bytes} {d : Page} : ofBytes? bs = some d ↔ d.bytes = bs := by
  constructor
  · intro h
    unfold ofBytes? at h
    split at h
    · cases h; rfl
    · cases h
  · rintro rfl; simp

theorem ofBytes?_eq_none_iff {bs : Bytes} : ofBytes? bs = none ↔ bs.length ≠ size := by
  simp [ofBytes?]

@[simp] theorem ofStart_nil : ofStart [] = zero := rfl

end Page

end BufferPool
