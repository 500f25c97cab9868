import ShellDoc.Value.Basic

/-!
# Reports of runs

What a run has written: the pages in order, how many sections each has, and the table of contents.
-/

namespace ShellDoc.Run

structure Report where
  files : List Text := []
  contents : Option Text := none
  blockCounts : Fields Nat := []
  deriving DecidableEq, Repr

namespace Report

/-- One page more; a page that is written again counts with its last number of sections. -/
def add (r : Report) (path : Text) (count : Nat) : Report :=
  { r with files := r.files ++ [path], blockCounts := r.blockCounts.put path count }

def totalBlocks (r : Report) : Nat := (r.blockCounts.map Prod.snd).foldr (· + ·) 0

def toValue (r : Report) : Value :=
  Value.ofFields
    [("files", Value.texts r.files),
     ("toc", (r.contents.map Value.text).getD .null),
     ("block_counts", Value.ofFields (r.blockCounts.map fun f => (f.1, .int f.2))),
     ("total_blocks", .int r.totalBlocks)]

end Report

end ShellDoc.Run
