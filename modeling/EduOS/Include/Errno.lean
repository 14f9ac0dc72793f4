import Mathlib

/-!
# Error numbers

`include/errno.h`, as far as the modelled calls return them.
-/

namespace EduOS

def eperm : ℕ := 1

def enoent : ℕ := 2

def esrch : ℕ := 3

def eio : ℕ := 5

def ebadf : ℕ := 9

def echild : ℕ := 10

def eagain : ℕ := 11

def enomem : ℕ := 12

def eacces : ℕ := 13

def efault : ℕ := 14

def ebusy : ℕ := 16

def eexist : ℕ := 17

def enotdir : ℕ := 20

def eisdir : ℕ := 21

def einval : ℕ := 22

def emfile : ℕ := 24

def efbig : ℕ := 27

def enospc : ℕ := 28

def epipe : ℕ := 32

def erange : ℕ := 34

def edeadlk : ℕ := 35

def enotempty : ℕ := 39

def emsgsize : ℕ := 90

end EduOS
