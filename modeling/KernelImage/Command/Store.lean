/-!
# A store of files

Files in a working directory, found by path as an operating system finds them: empty steps and `.`
stay in place, `..` goes up, and nothing but the working directory is known outside it.
-/

namespace KernelImage.Command

/-- Why a file cannot be read, with the number that the system gives the reason. -/
structure ReadError where
  text : String
  number : Nat
deriving DecidableEq

namespace ReadError

def notFound : ReadError := ⟨"No such file or directory", 2⟩

def notDirectory : ReadError := ⟨"Not a directory", 20⟩

def isDirectory : ReadError := ⟨"Is a directory", 21⟩

def nameTooLong : ReadError := ⟨"File name too long", 36⟩

def all : List ReadError := [notFound, notDirectory, isDirectory, nameTooLong]

/-- The reason with this number, in the words of the system where it has no other ones here. -/
def ofNumber (number : Nat) (text : String) : ReadError :=
  (all.find? fun e => e.number = number).getD ⟨text, number⟩

def message (e : ReadError) : String := e.text ++ " (os error " ++ toString e.number ++ ")"

end ReadError

/-- The way from the working directory to a file, one name per directory. -/
abbrev Path := List String

structure FileStore where
  files : List (Path × ByteArray)

namespace FileStore

def maxNameBytes : Nat := 255

def maxPathBytes : Nat := 4095

/-- A store in which each file is named by a path with slashes. -/
def ofFiles (files : List (String × ByteArray)) : FileStore :=
  ⟨files.map fun (name, bytes) => (name.splitOn "/", bytes)⟩

def file? (store : FileStore) (path : Path) : Option ByteArray := store.files.lookup path

def HasDirectory (store : FileStore) (path : Path) : Prop :=
  store.files.any fun (p, _) => path.isPrefixOf p && path.length < p.length

instance (store : FileStore) (path : Path) : Decidable (store.HasDirectory path) :=
  inferInstanceAs (Decidable (_ = true))

/-- A directory inside the store, or one outside of which nothing is known. -/
inductive Place where
  | inside (path : Path)
  | outside

def Place.parent : Place → Place
  | inside [] => outside
  | inside path => inside path.dropLast
  | outside => outside

/-- Follows the steps of a path from a directory. -/
def follow (store : FileStore) (place : Place) : List String → Except ReadError ByteArray
  | [] => .error .isDirectory
  | "" :: rest => follow store place rest
  | "." :: rest => follow store place rest
  | ".." :: rest => follow store place.parent rest
  | name :: rest =>
    if maxNameBytes < name.utf8ByteSize then .error .nameTooLong
    else
      match place with
      | .outside => .error .notFound
      | .inside path =>
        match store.file? (path ++ [name]) with
        | some bytes => if rest.isEmpty then .ok bytes else .error .notDirectory
        | none =>
          if store.HasDirectory (path ++ [name]) then
            follow store (.inside (path ++ [name])) rest
          else
            .error .notFound

def read (store : FileStore) (path : String) : Except ReadError ByteArray :=
  if path.isEmpty then .error .notFound
  else if maxPathBytes < path.utf8ByteSize then .error .nameTooLong
  else
    follow store (if path.toList.head? = some '/' then .outside else .inside [])
      (path.splitOn "/")

end FileStore

end KernelImage.Command
