/-
The options of the files of a pool.

A file overrides the options of the run: the standard namespace option first,
then the custom options `php.package`, `php.namespace`, `php.multifile` and
`php.suffix`, as far as the pool knows them.  An empty suffix does not count;
an empty package or namespace does and means the global namespace.

* `Options.forFile` — the options of the run for one file of the pool.
-/
import ProtoPhp.Options.Basic
import ProtoPhp.Pool.CustomOption

namespace ProtoPhp.Options

/-- The custom suffix of a file, unless it is empty. -/
def suffixOption? (p : Pool) (f : Descriptor.File) : Option String :=
  (p.textOption? f "php.suffix").filter (· ≠ "")

/-- The options of the run for one file of the pool. -/
def forFile (o : Options) (p : Pool) (f : Descriptor.File) : Options where
  package := p.textOption? f "php.package" <|> o.package
  namespaceText := p.textOption? f "php.namespace" <|> (o.withStandard f).namespaceText
  multifile := (p.boolOption? f "php.multifile").getD o.multifile
  suffix := suffixOption? p f <|> o.suffix

end ProtoPhp.Options
