/-!
# The built-in program

A program to try the command on without a file at hand. It has a scope of every category.
-/

namespace Offside.Cli

/-- The text of the built-in program. -/
def builtInSource : List Char :=
  "
$ MYA Language Example
$ Demonstrates recursive linear and lateral parsing

Main() fn:
    let x: int = 10;
    let y: int = 20;
    print \"Starting MYA program\";

    filter x > 0 pass:
        print \"X is positive\";

    for i in range 0 to 5:
        print \"Iteration:\", i;
        multiply(x, i);

fn multiply(a: int, b: int) -> int:
    let result: int = a * b;
    print \"Result:\", result;
    return result;

struct Point:
    x: int
    y: int
    z: int
end

render:
    viewport: 800x600
    camera:
        position: 0, 0, 10
        target: 0, 0, 0

    object: cube
        position: 0, 0, 0
        scale: 1, 1, 1
end

asm:
    mov eax, 0
    mov ebx, 1
    add eax, ebx
end
".toList

end Offside.Cli
