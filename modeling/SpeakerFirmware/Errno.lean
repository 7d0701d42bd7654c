/-
# Error codes

What the functions of the firmware return on an error: the numbers of `errno.h` of the
minimal C library, negated.
-/

import Mathlib.Data.Int.Notation

namespace SpeakerFirmware.Errno

def eperm : Int := -1
def enoent : Int := -2
def eio : Int := -5
def eagain : Int := -11
def enomem : Int := -12
def efault : Int := -14
def einval : Int := -22
def enolck : Int := -34
def enosys : Int := -71

end SpeakerFirmware.Errno
