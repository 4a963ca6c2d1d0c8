/-
  Joining paths.
-/
import GoI2pBt.Lib.Bytes

namespace GoI2pBt

def cleanStep (rooted : Bool) (out : List Bytes) (elem : Bytes) : List Bytes :=
  if elem = [] ∨ elem = utf8 "." then out
  else if elem = utf8 ".." then
    match out with
    | [] => if rooted then [] else [elem]
    | last :: out => if last = utf8 ".." then elem :: last :: out else out
  else elem :: out

def cleanPath (path : Bytes) : Bytes :=
  let rooted := path.head? = some (ch '/')
  let elems := ((path.splitOn (ch '/')).foldl (cleanStep rooted) []).reverse
  if rooted then ch '/' :: (elems.intersperse [ch '/']).flatten
  else if elems = [] then utf8 "." else (elems.intersperse [ch '/']).flatten

def joinPath (elems : List Bytes) : Bytes :=
  let elems := elems.dropWhile (· = [])
  if elems = [] then [] else cleanPath (elems.intersperse [ch '/']).flatten

example : joinPath [utf8 "root", [], utf8 "a/../b", utf8 "c"] = utf8 "root/b/c" := by
  decide +kernel

def basePath (path : Bytes) : Bytes :=
  if path = [] then utf8 "."
  else
    let last := (path.rdropWhile (· = ch '/')).rtakeWhile (· ≠ ch '/')
    if last = [] then utf8 "/" else last

def dirPath (path : Bytes) : Bytes := cleanPath (path.rdropWhile (· ≠ ch '/'))

example : basePath (utf8 "a/b//") = utf8 "b" ∧ dirPath (utf8 "a/b/c") = utf8 "a/b" := by
  decide +kernel

end GoI2pBt
