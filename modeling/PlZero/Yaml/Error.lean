namespace PlZero.Yaml

inductive Error where
  | characters
  | tokens
  | grammar
  | version
  | repeatedDirective
  | unknownHandle (handle : String)
  | unknownAnchor (name : String)
  | recursiveAnchor (name : String)
  | repeatedKey
  | mismatch
deriving DecidableEq, Repr

def Error.message : Error → String
  | characters => "yaml: control characters are not allowed"
  | tokens => "yaml: found characters that cannot start any token"
  | grammar => "yaml: did not find expected node content"
  | version => "yaml: found incompatible document"
  | repeatedDirective => "yaml: found duplicate directive"
  | unknownHandle handle => "yaml: found undefined tag handle '" ++ handle ++ "'"
  | unknownAnchor name => "yaml: unknown anchor '" ++ name ++ "' referenced"
  | recursiveAnchor name => "yaml: anchor '" ++ name ++ "' value contains itself"
  | repeatedKey => "yaml: mapping key already defined"
  | mismatch => "yaml: cannot read a value as what is expected of it"

end PlZero.Yaml
